import OpenLava.Mbd.Links
import OpenLava.Mbd.Restore

/-!
# Counting from the lists

The end of `init_log` computes the counters from the jobs in the lists. It comes to the counters that a daemon has kept
by increments.
-/

namespace OpenLava

open Function Ledger List Mask Run

/-- A daemon that knows its jobs and has booked nothing. -/
def restarted (s : Mbd) : Mbd :=
  { s with
    replay := true
    queues := fun q =>
      { s.queues q with count := fun _ => 0, clamped := false, uAcct := fun _ => none, hAcct := fun _ => none }
    users := fun u => { s.users u with count := fun _ => 0, clamped := false, hAcct := fun _ => none }
    hosts := fun h =>
      { s.hosts h with
        count := fun _ => 0, clamped := false, uAcct := fun _ => none, full := false, updated := false, full_eq := by simp } }

variable {s : Mbd} {j : JobRef} {jp : JData} {E : JobRef → Entry}

theorem SamePlaces.trans (h : SamePlaces s s') (h' : SamePlaces s' s'') : SamePlaces s s'' :=
  ⟨fun u => (h'.gPtr u).trans (h.gPtr u), fun u => (h'.ancestors u).trans (h.ancestors u),
    fun x => (h'.remote x).trans (h.remote x)⟩

theorem books_move (hb : Books E s) (hj : j ∈ s.live) (he : E j = entryAt jp ph false)
    (hr : Realises jp p (pendBy jp ph' false - pendBy jp ph false) fun c => heldBy ph' false c - heldBy ph false c) :
    Books (update E j (entryAt jp ph' false)) (post jp p s) := by
  have ha : (E j).add (pendBy jp ph' false - pendBy jp ph false) (fun c => heldBy ph' false c - heldBy ph false c) =
      entryAt jp ph' false := by simp [he, Entry.add, entryAt]
  rw [← ha]
  exact hb.post hj (he ▸ entryAt_at ..) hr (ha ▸ entryAt_sound (by simp))

/-- One turn of the loop puts a job that reserves nothing and is in no chunk on the books. -/
theorem books_countReplayed (hb : Books E s) (hj : j ∈ s.live) (he : E j = entryAt (s.jobs j) .finished false)
    (hph : (s.jobs j).phase = some ph) (hf : ph ≠ .finished) (hr : (s.jobs j).jStatus.reserve = false)
    (hw : (s.jobs j).jStatus.mask.wait = false) : Books (update E j (entryOf (s.jobs j))) (countReplayed s j) ∧
      SamePlaces s (countReplayed s j) := by
  have hreads := phase_reads hph
  have hpend : Books (update E j (entryAt (s.jobs j) .pending false))
      (post { s.jobs j with jStatus := { mask := .PEND } } (pendPosting (s.jobs j).maxNumProcessors) s) :=
    books_move hb hj he pendPosting_realises
  have hpla := post_samePlaces { s.jobs j with jStatus := { mask := .PEND } } (pendPosting (s.jobs j).maxNumProcessors) s
  rw [entryOf_eq hph, hr]
  unfold countReplayed
  by_cases hp : ph = .pending
  · -- booked already, whether it is PEND or PSUSP
    subst hp
    simp [updCounters, hreads.isPend, hreads.isStart, show Mask.PEND.isPend = true from rfl, hpend, hpla]
  · have hpm : (s.jobs j).jStatus.mask.isPend = false := by simp [hreads.isPend, hp]
    have hacc : Accounted .PEND (s.jobs j).jStatus.mask := by
      have hm : (s.jobs j).jStatus.mask.phase = some ph := hph
      unfold Accounted
      rw [show Mask.PEND.phase = some .pending from rfl, hm]
      cases ph <;> simp_all [Mask.PEND]
    obtain ⟨p, hrow, hreal⟩ := updCountersRow_realises (s.jobs j) rfl hph hacc (Ne.symm hp) (by decide)
    have hu : ∀ s', updCounters (s.jobs j) .PEND s' = post (s.jobs j) p s' := by
      intro s'
      simp only [updCounters, show Mask.PEND.known = .PEND from rfl]
      rw [if_neg (by decide), if_neg fun h => hp (hreads.known_PEND.mp h).1, if_neg (by simp [hpm]), hrow]
    have hb := books_move hpend (by simpa using hj) (update_self ..) hreal
    rw [update_idem] at hb
    have hpla := hpla.trans (post_samePlaces (s.jobs j) p _)
    dsimp only
    rw [if_neg fun hm => by simp [Mask.isPend, hm] at hpm, hu]
    split_ifs
    · have ho (s2 : Mbd) := (Only.refl j s2).eachHost (fun hp => { hp with exclusive := true }) (s.jobs j).hPtr
        fun _ => ⟨rfl, rfl, rfl⟩
      exact ⟨(ho _).toSameBooks.books hb, hpla.trans (ho _).toSamePlaces⟩
    · exact ⟨hb, hpla⟩

/-- A job is on the books once the loop has come to it. -/
def booked (s : Mbd) (done : Finset JobRef) (j : JobRef) : Entry :=
  if j ∈ done then entryOf (s.jobs j) else entryAt (s.jobs j) .finished false

theorem books_restarted (h : Kept s) : Books (booked (restarted s) ∅) (restarted s) := by
  have hc : booked (restarted s) ∅ = fun j => entryAt (s.jobs j) .finished false := by
    funext j
    simp [booked, restarted]
  have ha := fun j => (entryAt_finished_zero (s.jobs j) false).amount
  have hh := fun j => (entryAt_finished_zero (s.jobs j) false).2
  rw [hc]
  refine ⟨fun j _ => (entryAt_finished_zero ..).sound, h.books.placed, ?_, ?_, ?_, ?_, ?_, fun _ => rfl, fun _ => rfl,
    fun _ => rfl⟩ <;> intro a <;> simp [total, owesQueue, owesUser, owesHost, owesUAcct, owesHAcct, ha, hh, restarted, acctCount]

theorem books_foldl {done : Finset JobRef} (jobs : List JobRef) (hb : Books (booked s done) s) (hn : jobs.Nodup)
    (hj : ∀ j ∈ jobs, j ∈ s.live ∧ j ∉ done ∧ (∃ ph, (s.jobs j).phase = some ph ∧ ph ≠ .finished) ∧
      (s.jobs j).jStatus.reserve = false ∧ (s.jobs j).jStatus.mask.wait = false) :
    Books (booked s (done ∪ jobs.toFinset)) (jobs.foldl countReplayed s) ∧ SamePlaces s (jobs.foldl countReplayed s) := by
  induction jobs generalizing s done with
  | nil => exact ⟨by simpa using hb, fun _ => rfl, fun _ => rfl, fun _ => rfl⟩
  | cons j jobs ih =>
    obtain ⟨hnot, hn⟩ := nodup_cons.mp hn
    obtain ⟨hl, hd, ⟨ph, hph, hf⟩, hr, hw⟩ := hj j mem_cons_self
    obtain ⟨hb, hp⟩ := books_countReplayed hb hl (if_neg hd) hph hf hr hw
    obtain ⟨hjobs, hlive, -⟩ := countReplayed_frame s j
    have he : update (booked s done) j (entryOf (s.jobs j)) = booked (countReplayed s j) (insert j done) := by
      funext i
      by_cases hi : i = j
      · subst hi; simp [booked, hjobs]
      · simp [booked, hjobs, hi]
    have hrest := ih (he ▸ hb) hn fun i hi => by
      obtain ⟨hl, hd, h⟩ := hj i (mem_cons_of_mem _ hi)
      rw [hlive, hjobs, Finset.mem_insert, not_or]
      exact ⟨hl, ⟨fun heq => hnot (heq ▸ hi), hd⟩, h⟩
    have hc : ∀ done, booked (countReplayed s j) done = booked s done := fun done => by
      funext i
      simp [booked, hjobs]
    rw [hc, Finset.insert_union, ← Finset.union_insert, ← toFinset_cons] at hrest
    exact ⟨hrest.1, hp.trans hrest.2⟩

/-- The jobs that the end of `init_log` goes through. -/
def listed (s : Mbd) : List JobRef := [ListNo.SJL, .MJL, .PJL].flatMap fun l => (s.lists l).entries.reverse

theorem Linked.mem_listed (h : Linked s) : j ∈ listed s ↔ j ∈ s.live ∧ (s.jobs j).phase ≠ some .finished := by
  by_cases hj : j ∈ s.live
  · obtain ⟨ph, l, hph, hb, hl⟩ := h.inPlace j hj
    simp only [listed, mem_flatMap, mem_reverse, hl.mem_iff, hph, hj]
    cases ph <;> simp [Belongs] at hb ⊢ <;> grind
  · simp only [hj, false_and, iff_false, listed, mem_flatMap, mem_reverse]
    rintro ⟨l, -, hl⟩
    exact absurd hl (count_eq_zero.mp (h.unlinked j hj l))

theorem Linked.nodup_listed (h : Linked s) : (listed s).Nodup := by
  refine nodup_flatMap.mpr ⟨fun l _ => nodup_reverse.mpr (h.nodup l), ?_⟩
  have hd : ∀ l l', l ≠ l' → Disjoint (s.lists l).entries (s.lists l').entries :=
    fun l l' hne j hj hj' => hne.symm (((h.linkedIn hj).mem_iff l').mp hj')
  simp [hd]

/-- The counters computed anew are those that were kept. -/
theorem Kept.recounted (h : Kept s) (hl : Linked s)
    (hc : ∀ j ∈ s.live, (s.jobs j).jStatus.reserve = false ∧ (s.jobs j).jStatus.mask.wait = false) :
    SameCounts s (endReplay (restarted s)) := by
  obtain ⟨hb, hp⟩ := books_foldl (s := restarted s) (listed s) (books_restarted h) hl.nodup_listed fun j hj => by
    obtain ⟨hj, hf⟩ := hl.mem_listed.mp hj
    obtain ⟨ph, hph⟩ := h.phase hj
    exact ⟨hj, by simp, ⟨ph, hph, fun he => hf (he ▸ hph)⟩, hc j hj⟩
  obtain ⟨hjobs, hlive, -⟩ := endReplay_frame (restarted s)
  have hbooks : Books (entries s) (endReplay (restarted s)) := by
    have hs : SameBooks ((listed s).foldl countReplayed (restarted s)) (endReplay (restarted s)) := .of_eq rfl rfl rfl rfl
    refine hs.books (hb.congr ?_ ?_)
    · exact fun i hi => ⟨(h.fit i (hlive ▸ hi)).sound, fun x hx => (hp.remote x).trans (h.books.placed i (hlive ▸ hi) x hx)⟩
    · intro i hi
      by_cases hmem : i ∈ listed s
      · simp only [booked, Finset.empty_union, mem_toFinset, hmem, if_true]
        exact ⟨rfl, rfl, rfl, rfl, rfl⟩
      · -- a finished job owes nothing
        have hf : (s.jobs i).phase = some .finished := by
          by_contra hf
          exact hmem (hl.mem_listed.mpr ⟨hlive ▸ hi, hf⟩)
        simp only [booked, Finset.empty_union, mem_toFinset, hmem, if_false, entries, entryOf_eq hf]
        exact (entryAt_finished_zero ..).same (entryAt_finished_zero ..)
  have he : entries (endReplay (restarted s)) = entries s := funext fun i => congrArg entryOf (congrFun hjobs i)
  have hk : Kept (endReplay (restarted s)) := ⟨rfl, fun j hj => by rw [hjobs]; exact h.fit j (hlive ▸ hj), he ▸ hbooks⟩
  refine h.sameCounts hk ⟨hp.gPtr, hp.ancestors, hp.remote⟩ hlive fun j _ => ?_
  rw [hjobs]
  exact ⟨rfl, rfl, rfl, rfl, rfl⟩

/-- Over every run of jobs whose slots an `int` can count: a daemon restarted while nothing is reserved counts what it had
counted before. -/
theorem restart_counts (C : Config) (s₀ : Mbd) (h₀ : s₀.Initial) (hr : s₀.replay = false) (ops : List Op)
    (hops : Meets (step C) (Bookable C) ops s₀) (hint : Meets (step C) (InInt C) ops s₀)
    (hlinks : Meets (step C) Linkable ops s₀)
    (hc : ∀ j ∈ (run (step C) ops s₀).live, ((run (step C) ops s₀).jobs j).jStatus.reserve = false ∧
      ((run (step C) ops s₀).jobs j).jStatus.mask.wait = false) :
    SameCounts (run (step C) ops s₀) (endReplay (restarted (run (step C) ops s₀))) ∧
      ∀ q c, 0 ≤ ((run (step C) ops s₀).queues q).count c ∧ ((run (step C) ops s₀).queues q).count c < 2 ^ 31 :=
  have hk := kept_run h₀ hr ops hops
  ⟨hk.recounted (run_invariant Linked.step ops s₀ h₀.linked hlinks) hc, hk.queue_inInt (slots_run h₀ ops hint)⟩

/-- One job runs on two slots, one is suspended, one pends and one is done. -/
theorem restart_counts_four : let ops : List Op := [.newJob 1 false 0 1 0 { queue := 0, maxNumProcessors := 2 },
      .newJob 1 false 1 2 0 { queue := 0 }, .newJob 1 false 2 3 0 { queue := 1 }, .newJob 1 false 3 4 0 { queue := 0 },
      .allocHosts 0 2 [(0, 2)], .jStatusChange 2 0 .RUN 0, .allocHosts 1 1 [(1, 1)], .jStatusChange 2 1 .RUN 0,
      .jStatusChange 3 1 .USUSP 0, .jStatusChange 4 3 .EXIT 0]
    ((run (step {}) ops .blank).queues 0).count .numRUN = 2 ∧
      SameCounts (run (step {}) ops .blank) (endReplay (restarted (run (step {}) ops .blank))) := by
  intro ops
  exact ⟨by decide +kernel, (restart_counts {} .blank Mbd.blank_initial rfl ops (by decide +kernel) (by decide +kernel)
    (by decide +kernel) (by decide +kernel)).1⟩

end OpenLava

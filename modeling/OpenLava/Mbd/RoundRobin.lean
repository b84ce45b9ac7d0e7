import OpenLava.Mbd.Session

/-!
# The job a round takes

A round looks at the leading run of references with equal priority. If the queue of the leading job is first come first
served, that job is taken; if all queues of the run are round robin, the job of the user with the fewest running jobs
is. In a mixed run the first job of the other kind is taken. `mbatchd` aborts at a job whose user has nothing pending.
-/

namespace OpenLava.Session

open List

section

variable {α : Type} {key : α → Int} {l : List α} {a b : α}

def Earliest (key : α → Int) (l : List α) (a : α) : Prop :=
  ∃ before after, l = before ++ a :: after ∧ (∀ b ∈ before, key a < key b) ∧ ∀ b ∈ after, key a ≤ key b

theorem Earliest.single (key : α → Int) (a : α) : Earliest key [a] a := ⟨[], [], rfl, by simp, by simp⟩

theorem Earliest.snoc (h : Earliest key l a) (b : α) : Earliest key (l ++ [b]) (if key b < key a then b else a) := by
  obtain ⟨before, after, rfl, hb, ha⟩ := h
  split_ifs with hlt
  · refine ⟨before ++ a :: after, [], rfl, forall_mem_append.mpr ⟨?_, forall_mem_cons.mpr ⟨hlt, ?_⟩⟩, by simp⟩
    · exact fun c hc => hlt.trans (hb c hc)
    · exact fun c hc => hlt.trans_le (ha c hc)
  · refine ⟨before, after ++ [b], by simp, hb, forall_mem_append.mpr ⟨ha, ?_⟩⟩
    exact forall_mem_singleton.mpr (not_lt.mp hlt)

theorem Earliest.mem (h : Earliest key l a) : a ∈ l := by
  obtain ⟨before, after, rfl, -⟩ := h
  simp

end

section

variable (Q : Queues) (s : Mbd)

def prio (j : JobRef) : Int := (s.queues (s.jobs j).qPtr).priority

def running (j : JobRef) : Int := (s.users (s.jobs j).uPtr).count .numRUN

def Rotates (j : JobRef) : Prop := Q.roundRobin (s.jobs j).qPtr = true

/-- What the loop asserts. -/
def Waits (j : JobRef) : Prop := 0 < (s.users (s.jobs j).uPtr).count .numPEND

/-- `pickLoop` with its assertion; `none` if it fails. -/
def assertLoop : Option (Int × JobRef) → List JobRef → Option JobRef
  | _, [] => none
  | best, j :: rest =>
    let jp := s.jobs j
    if ¬ 0 < (s.users jp.uPtr).count .numPEND then none
    else if ¬ Q.roundRobin jp.qPtr then some j
    else
      let best := fewest ((s.users jp.uPtr).count .numRUN) j best
      match rest with
      | [] => some best.2
      | i :: _ => if prio s j ≠ prio s i then some best.2 else assertLoop (some best) rest

def leadingRun : List JobRef → List JobRef
  | [] => []
  | j :: rest => j :: rest.takeWhile fun i => prio s i = prio s j

/-- The leading job without round robin; else the earliest whose user has the fewest running
slots. -/
def Chosen : List JobRef → JobRef → Prop
  | [], _ => False
  | lead :: rest, j => (¬ Rotates Q s lead ∧ j = lead) ∨
    (Rotates Q s lead ∧
      Earliest (running s) ((leadingRun s (lead :: rest)).filter fun i => Q.roundRobin (s.jobs i).qPtr) j)

variable {Q s}

theorem leadingRun_cons_same (h : prio s j = prio s i) : leadingRun s (j :: i :: rest) = j :: leadingRun s (i :: rest) := by
  simp [leadingRun, h]

theorem leadingRun_cons_other (h : prio s j ≠ prio s i) : leadingRun s (j :: i :: rest) = [j] := by
  simp [leadingRun, Ne.symm h]

def Found (s : Mbd) (seen : List JobRef) : Option (Int × JobRef) → Prop
  | none => seen = []
  | some (min, jR0) => min = running s jR0 ∧ Earliest (running s) seen jR0

theorem Found.fewest (h : Found s seen best) (j : JobRef) : Found s (seen ++ [j]) (some (fewest (running s j) j best)) := by
  cases best with
  | none =>
    have hs : seen = [] := h
    subst hs
    exact ⟨rfl, Earliest.single _ j⟩
  | some b =>
    obtain ⟨min, jR0⟩ := b
    obtain ⟨rfl, he⟩ := h
    have hn := he.snoc j
    rw [Session.fewest]
    split_ifs at hn ⊢ with hlt
    · exact ⟨rfl, hn⟩
    · exact ⟨rfl, hn⟩

theorem assertLoop_rotates {j : JobRef} (rest : List JobRef) (best : Option (Int × JobRef)) (h : Rotates Q s j)
    (hw : Waits s j) : assertLoop Q s best (j :: rest) = match rest with
      | [] => some (fewest (running s j) j best).2
      | i :: _ => if prio s j ≠ prio s i then some (fewest (running s j) j best).2
        else assertLoop Q s (some (fewest (running s j) j best)) rest := by
  have h' : ¬ ¬ Q.roundRobin (s.jobs j).qPtr = true := not_not.mpr h
  have hw' : ¬ ¬ 0 < (s.users (s.jobs j).uPtr).count .numPEND := not_not.mpr hw
  rw [assertLoop]
  dsimp only
  rw [if_neg hw', if_neg h']
  rfl

theorem assertLoop_eq_pickLoop {best : Option (Int × JobRef)} {jobs : List JobRef} (h : assertLoop Q s best jobs = some j) :
    pickLoop Q s best jobs = some j := by
  fun_induction assertLoop Q s best jobs with
  | case1 => cases h
  | case2 => cases h
  | case3 best k rest jp hw hq =>
    rw [pickLoop, if_pos hq]
    exact h
  | case4 best k jp hw hq b =>
    rw [pickLoop, if_neg hq]
    exact h
  | case5 best k jp hw hq b i rest hp =>
    rw [pickLoop, if_neg hq]
    exact (if_pos hp).trans h
  | case6 best k jp hw hq b i rest hp ih =>
    rw [pickLoop, if_neg hq]
    exact (if_neg hp).trans (ih h)

theorem assertLoop_run (jRefList : List JobRef) (hne : jRefList ≠ [])
    (hb : Found s seen best) (h : ∀ i ∈ leadingRun s jRefList, Rotates Q s i ∧ Waits s i) :
    ∃ j, assertLoop Q s best jRefList = some j ∧ Earliest (running s) (seen ++ leadingRun s jRefList) j := by
  induction jRefList generalizing seen best with
  | nil => exact absurd rfl hne
  | cons j rest ih =>
    have hn := hb.fewest j
    obtain ⟨hr, hw⟩ := h j mem_cons_self
    rw [assertLoop_rotates rest best hr hw]
    cases rest with
    | nil => exact ⟨_, rfl, hn.2⟩
    | cons i rest =>
      by_cases hp : prio s j = prio s i
      · rw [leadingRun_cons_same hp] at h ⊢
        obtain ⟨k, hk, he⟩ := ih (cons_ne_nil i rest) hn fun i hi => h i (mem_cons_of_mem j hi)
        refine ⟨k, by simpa [hp] using hk, ?_⟩
        rwa [append_assoc] at he
      · rw [leadingRun_cons_other hp]
        exact ⟨(fewest (running s j) j best).2, if_pos hp, hn.2⟩

/-- Where the run is not one of waiting round-robin jobs, none of these is taken. -/
theorem assertLoop_mixed (jRefList : List JobRef) (best : Option (Int × JobRef))
    (h : ∃ i ∈ leadingRun s jRefList, ¬ (Rotates Q s i ∧ Waits s i)) {k : JobRef}
    (hk : assertLoop Q s best jRefList = some k) : ¬ Rotates Q s k := by
  induction jRefList generalizing best with
  | nil => cases hk
  | cons j rest ih =>
    by_cases hj : Rotates Q s j ∧ Waits s j
    · obtain ⟨m, hm, ho⟩ := h
      rw [assertLoop_rotates rest best hj.1 hj.2] at hk
      cases rest with
      | nil =>
        have hmj : m = j := by simpa [leadingRun] using hm
        exact absurd hj (hmj ▸ ho)
      | cons i rest =>
        by_cases hp : prio s j = prio s i
        · rw [leadingRun_cons_same hp] at hm
          rcases mem_cons.mp hm with rfl | hm
          · exact absurd hj ho
          · exact ih (some (fewest (running s j) j best)) ⟨m, hm, ho⟩ (by simpa [hp] using hk)
        · rw [leadingRun_cons_other hp, mem_singleton] at hm
          exact absurd hj (hm ▸ ho)
    · rw [assertLoop] at hk
      dsimp only at hk
      split_ifs at hk with hw hq
      · exact absurd ⟨hq, hw⟩ hj
      · exact Option.some.inj hk ▸ hq

theorem Chosen.rotates (h : Chosen Q s (lead :: rest) j) (hl : Rotates Q s lead) : Rotates Q s j := by
  rcases h with ⟨hn, -⟩ | ⟨-, h⟩
  · exact absurd hl hn
  · exact (mem_filter.mp h.mem).2

/-- The job taken is right iff the leading one is first come first served or its run round robin, and users of jobs that
are looked at have pending ones. -/
theorem assertLoop_chosen_iff (lead : JobRef) (rest : List JobRef) :
    (∃ j, assertLoop Q s none (lead :: rest) = some j ∧ Chosen Q s (lead :: rest) j) ↔
      ¬ Rotates Q s lead ∧ Waits s lead ∨ ∀ i ∈ leadingRun s (lead :: rest), Rotates Q s i ∧ Waits s i := by
  by_cases hl : Rotates Q s lead
  · by_cases hr : ∀ i ∈ leadingRun s (lead :: rest), Rotates Q s i ∧ Waits s i
    · have hn : Found s [] none := rfl
      obtain ⟨j, hj, he⟩ := assertLoop_run (lead :: rest) (cons_ne_nil lead rest) hn hr
      refine iff_of_true ⟨j, hj, .inr ⟨hl, ?_⟩⟩ (.inr hr)
      rwa [filter_eq_self.mpr fun i hi => (hr i hi).1]
    · refine iff_of_false ?_ (by simp only [hl, not_true, false_and, false_or]; exact hr)
      rintro ⟨j, hj, hc⟩
      push Not at hr
      obtain ⟨i, hi, ho⟩ := hr
      exact assertLoop_mixed (lead :: rest) none ⟨i, hi, fun h => ho h.1 h.2⟩ hj (hc.rotates hl)
  · have hrun : ¬ ∀ i ∈ leadingRun s (lead :: rest), Rotates Q s i ∧ Waits s i := fun h => hl (h lead mem_cons_self).1
    have hl' : ¬ Q.roundRobin (s.jobs lead).qPtr = true := hl
    by_cases hw : Waits s lead
    · have hw' : ¬ ¬ 0 < (s.users (s.jobs lead).uPtr).count .numPEND := not_not.mpr hw
      refine iff_of_true ⟨lead, ?_, .inl ⟨hl, rfl⟩⟩ (.inl ⟨hl, hw⟩)
      rw [assertLoop]
      dsimp only
      rw [if_neg hw', if_pos hl']
    · have hw' : ¬ 0 < (s.users (s.jobs lead).uPtr).count .numPEND := hw
      refine iff_of_false ?_ (by simp [hw, hrun])
      rintro ⟨j, hj, -⟩
      rw [assertLoop, if_pos hw'] at hj
      cases hj

/-- A round of the loop at `again` up to `scheduleAJob`; `none` if `mbatchd` aborts. -/
def nextJob (Q : Queues) (jPtr : JobVar) (s : Sched) : Option (Handover × List JobRef) :=
  if s.jRefList ≠ [] ∧ assertLoop Q s.mbd none s.jRefList = none then none else some (takeRef Q jPtr s)

end

section

variable (Q : Queues) (jPtr : JobVar) (s : Sched)

/-- A round hands over the right job exactly under the condition of the pick. -/
theorem nextJob_chosen_iff (lead : JobRef) (rest : List JobRef) (h : s.jRefList = lead :: rest) :
    (∃ j pending, nextJob Q jPtr s = some (⟨.job j, true, pending⟩, s.jRefList.erase j) ∧ Chosen Q s.mbd s.jRefList j) ↔
      ¬ Rotates Q s.mbd lead ∧ Waits s.mbd lead ∨
        ∀ i ∈ leadingRun s.mbd s.jRefList, Rotates Q s.mbd i ∧ Waits s.mbd i := by
  rw [h, ← assertLoop_chosen_iff]
  unfold nextJob takeRef pickJob
  rw [h]
  cases ha : assertLoop Q s.mbd none (lead :: rest) with
  | none => simp
  | some k =>
    rw [assertLoop_eq_pickLoop ha]
    constructor
    · rintro ⟨j, pending, hj, hc⟩
      obtain rfl : k = j := by simpa using congrArg (fun r => r.map fun r => r.1.jPtr) hj
      exact ⟨k, rfl, hc⟩
    · rintro ⟨j, hj, hc⟩
      obtain rfl := Option.some.inj hj
      exact ⟨k, _, rfl, hc⟩

end

/-- Job `j` is in queue `j`, and the queues have one priority; user `u` has `u` jobs running and one pending. -/
def ownQueues (uPtr : JobRef → URef) : Mbd :=
  { Mbd.blank with
    jobs := fun j => { Mbd.blank.jobs j with qPtr := j, uPtr := uPtr j }
    users := fun u => { count := fun c => if c = .numRUN then u else if c = .numPEND then 1 else 0 } }

def mixed : Queues := { qDataList := [0, 1, 2], roundRobin := fun q => q ≠ 2 }

/-- Of the round-robin jobs 0 and 1 the one of the user with fewer running jobs is taken. -/
theorem nextJob_chosen_fewest :
    Chosen mixed (ownQueues fun j => 5 - j) [0, 1] 1 ∧
    ∃ j pending, nextJob mixed .uninitialized { mbd := ownQueues fun j => 5 - j, jRefList := [0, 1] } =
      some (⟨.job j, true, pending⟩, [0, 1].erase j) ∧ Chosen mixed (ownQueues fun j => 5 - j) [0, 1] j :=
  ⟨.inr ⟨rfl, [0], [], by decide, by decide, by decide⟩,
    (nextJob_chosen_iff mixed .uninitialized { mbd := ownQueues fun j => 5 - j, jRefList := [0, 1] } 0 [1] rfl).mpr
      (.inr (by unfold Rotates Waits; decide))⟩

/-- A round-robin job leads, and one of another queue of its priority is taken. -/
theorem nextJob_not_chosen :
    (∃ pending, nextJob mixed .uninitialized { mbd := ownQueues id, jRefList := [0, 2] } =
      some (⟨.job 2, true, pending⟩, [0])) ∧ Rotates mixed (ownQueues id) 0 ∧ ¬ Chosen mixed (ownQueues id) [0, 2] 2 := by
  have hl : Rotates mixed (ownQueues id) 0 := rfl
  refine ⟨⟨true, by decide⟩, hl, fun h => ?_⟩
  have ho : Rotates mixed (ownQueues id) 2 := h.rotates hl
  cases ho

end OpenLava.Session

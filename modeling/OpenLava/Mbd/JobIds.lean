import OpenLava.Mbd.State

/-!
# Job ids

`getNextJobId` and `addJobIdHT` of `mbd.job.c`. The counters of the search are integers: they stay at or below
`maxJobId + 1`, and `lsb.params` holds `maxJobId` far below the largest `int`.
-/

namespace OpenLava.JobIds

open Function

/-- The table `jobIdHT`, with what `addJobIdHT` asks of an entry. -/
structure IdState where
  jobIdHT : Int → Option JobRef := fun _ => none
  isArray : JobRef → Bool := fun _ => false -- the records of whole job arrays
  nextJobId : Int := 1

def getJobData (s : IdState) (jobId : Int) : Option JobRef := if jobId ≤ 0 then none else s.jobIdHT jobId

def wrapJobId (maxJobId nextJobId : Int) : Int := if nextJobId ≥ maxJobId then 1 else nextJobId

/-- The loop of `getNextJobId`: its last `i` and `nextJobId`. -/
def searchJobId (s : IdState) (maxJobId i nextJobId : Int) : Int × Int :=
  if getJobData s nextJobId ≠ none ∧ i ≤ maxJobId then
    searchJobId s maxJobId (i + 1) (wrapJobId maxJobId (nextJobId + 1))
  else (i, nextJobId)
termination_by (maxJobId + 1 - i).toNat
decreasing_by omega

def getNextJobId (maxJobId : Int) (s : IdState) : Int × IdState :=
  let nextJobId := if s.nextJobId < maxJobId then s.nextJobId else 1
  let found := searchJobId s maxJobId 0 nextJobId
  if found.1 ≥ maxJobId then (-1, { s with nextJobId := found.2 })
  else (found.2, { s with nextJobId := wrapJobId maxJobId (found.2 + 1) })

/-- The loop never ends on the record of a whole array with the id. -/
def addJobIdHT (jobId : Int) (job : JobRef) (s : IdState) : Option IdState :=
  match s.jobIdHT jobId with
  | none => some { s with jobIdHT := update s.jobIdHT jobId (some job) }
  | some old =>
    if getJobData s jobId = some job then some s
    else if getJobData s jobId = none ∨ s.isArray old then none
    else some { s with jobIdHT := update s.jobIdHT jobId (some job) }

section

variable {s : IdState} {maxJobId start i nextJobId : Int}

theorem wrapJobId_range (hmax : 1 < maxJobId) (hn : 0 < nextJobId) :
    0 < wrapJobId maxJobId nextJobId ∧ wrapJobId maxJobId nextJobId < maxJobId := by
  unfold wrapJobId
  split_ifs <;> omega

/-- After `i` rounds from `start` the ids before `nextJobId`, around the end, are in use. -/
structure Searched (s : IdState) (maxJobId start i nextJobId : Int) : Prop where
  rounds : 0 ≤ i ∧ i ≤ maxJobId + 1
  range : 1 ≤ nextJobId ∧ nextJobId < maxJobId
  place : i < maxJobId → nextJobId = if start + i < maxJobId then start + i else start + i - (maxJobId - 1)
  used : ∀ k, 1 ≤ k → k < maxJobId → (start ≤ k ∧ k < start + i ∨ k + (maxJobId - 1) < start + i) →
    getJobData s k ≠ none

theorem Searched.zero (hs : 1 ≤ start) (hmax : start < maxJobId) : Searched s maxJobId start 0 start where
  rounds := by omega
  range := ⟨hs, hmax⟩
  place := fun _ => by rw [if_pos (by omega)]; omega
  used := fun k _ _ hk => by omega

theorem Searched.step (hs : 1 ≤ start) (hmax : start < maxJobId) (h : Searched s maxJobId start i nextJobId)
    (hu : getJobData s nextJobId ≠ none) (hi : i ≤ maxJobId) :
    Searched s maxJobId start (i + 1) (wrapJobId maxJobId (nextJobId + 1)) where
  rounds := by have := h.rounds; omega
  range := wrapJobId_range (by omega) (by have := h.range; omega)
  place := fun hlt => by
    have hpla := h.place (by omega)
    have hr := h.rounds
    unfold wrapJobId
    split_ifs at hpla ⊢ <;> omega
  used := fun k hk hk' hs => by
    by_cases hold : start ≤ k ∧ k < start + i ∨ k + (maxJobId - 1) < start + i
    · exact h.used k hk hk' hold
    · -- the id seen in this round
      have hpla := h.place (by omega)
      have hkeq : k = nextJobId := by split_ifs at hpla <;> omega
      exact hkeq ▸ hu

theorem searchJobId_spec (hs : 1 ≤ start) (hmax : start < maxJobId) (h : Searched s maxJobId start i nextJobId) :
    let found := searchJobId s maxJobId i nextJobId
    Searched s maxJobId start found.1 found.2 ∧ (getJobData s found.2 = none ∨ maxJobId < found.1) := by
  fun_induction searchJobId s maxJobId i nextJobId with
  | case1 i nextJobId hgo ih => exact ih (h.step hs hmax hgo.1 hgo.2)
  | case2 i nextJobId hs =>
    refine ⟨h, ?_⟩
    rw [not_and_or, not_not, not_le] at hs
    exact hs

/-- A search that passed every id found none free; one that stopped earlier stands at a free one. -/
theorem Searched.verdict (h : Searched s maxJobId start i nextJobId) (hs : 1 ≤ start)
    (he : getJobData s nextJobId = none ∨ maxJobId < i) :
    (maxJobId ≤ i ↔ ∀ k, 1 ≤ k → k < maxJobId → getJobData s k ≠ none) ∧
      (i < maxJobId → getJobData s nextJobId = none) := by
  have ha : maxJobId ≤ i → ∀ k, 1 ≤ k → k < maxJobId → getJobData s k ≠ none := fun hi k hk hk' =>
    h.used k hk hk' (by omega)
  refine ⟨⟨ha, fun hu => ?_⟩, fun hi => he.resolve_right (by omega)⟩
  rcases he with hf | hpast
  · exact absurd hf (hu nextJobId h.range.1 h.range.2)
  · omega

end

section

variable {s : IdState} {maxJobId : Int}

/-- Every id is in use, or `getNextJobId` gives a free one. The counter stays in the range. -/
theorem getNextJobId_cases (hmax : 2 ≤ maxJobId) (hn : 0 < s.nextJobId) :
    ∃ jobId nextJobId, getNextJobId maxJobId s = (jobId, { s with nextJobId }) ∧ 0 < nextJobId ∧
      ((jobId = -1 ∧ ∀ k, 1 ≤ k → k < maxJobId → getJobData s k ≠ none) ∨
        (1 ≤ jobId ∧ jobId < maxJobId ∧ getJobData s jobId = none)) := by
  have hs : 1 ≤ (if s.nextJobId < maxJobId then s.nextJobId else 1) ∧
      (if s.nextJobId < maxJobId then s.nextJobId else 1) < maxJobId := by split_ifs <;> omega
  obtain ⟨hsea, he⟩ := searchJobId_spec (s := s) hs.1 hs.2 (.zero hs.1 hs.2)
  obtain ⟨hn, hf⟩ := hsea.verdict hs.1 he
  obtain ⟨hpos, hlt⟩ := hsea.range
  rcases le_or_gt maxJobId (searchJobId s maxJobId 0 (if s.nextJobId < maxJobId then s.nextJobId else 1)).1 with hi | hi
  · exact ⟨_, _, if_pos hi, by omega, .inl ⟨rfl, hn.mp hi⟩⟩
  · exact ⟨_, _, if_neg hi.not_ge, (wrapJobId_range (by omega) (by omega)).1, .inr ⟨hpos, hlt, hf hi⟩⟩

/-- `getNextJobId` gives a free id of the range, or tells that there is none. -/
theorem getNextJobId_free (hmax : 2 ≤ maxJobId) (hnext : 0 < s.nextJobId) :
    ((getNextJobId maxJobId s).1 = -1 ↔ ∀ k, 1 ≤ k → k ≤ maxJobId - 1 → getJobData s k ≠ none) ∧
      ((getNextJobId maxJobId s).1 ≠ -1 → 1 ≤ (getNextJobId maxJobId s).1 ∧ (getNextJobId maxJobId s).1 ≤ maxJobId - 1 ∧
        getJobData s (getNextJobId maxJobId s).1 = none) := by
  obtain ⟨jobId, nextJobId, heq, -, ⟨rfl, hu⟩ | ⟨hpos, hlt, hf⟩⟩ := getNextJobId_cases hmax hnext
  · rw [heq]
    exact ⟨iff_of_true rfl fun k hk hk' => hu k hk (by omega), fun hne => absurd rfl hne⟩
  · rw [heq]
    exact ⟨iff_of_false (by omega) fun hu => hu jobId hpos (by omega) hf, fun _ => ⟨hpos, by omega, hf⟩⟩

/-- The ids 1, 3 and 4, and perhaps 2, are in use; the counter stands at 3. -/
def fewIds (two : Option JobRef) : IdState where
  jobIdHT := fun jobId => if jobId = 2 then two else if 1 ≤ jobId ∧ jobId ≤ 4 then some 0 else none
  nextJobId := 3

/-- The search goes past 4 and 1 to the one free id; if that is in use too, there is none. -/
theorem getNextJobId_free_few : getJobData (fewIds none) (getNextJobId 5 (fewIds none)).1 = none ∧
    (getNextJobId 5 (fewIds none)).1 = 2 ∧ (getNextJobId 5 (fewIds (some 7))).1 = -1 := by
  have hn : (getNextJobId 5 (fewIds none)).1 ≠ -1 := fun h =>
    (getNextJobId_free (by decide) (by decide)).1.mp h 2 (by decide) (by decide) rfl
  obtain ⟨hpos, hle, hfree⟩ := (getNextJobId_free (s := fewIds none) (by decide) (by decide)).2 hn
  refine ⟨hfree, ?_, (getNextJobId_free (by decide) (by decide)).1.mpr fun k hk hk' => ?_⟩
  · generalize (getNextJobId 5 (fewIds none)).1 = k at hpos hle hfree
    by_contra hk
    simp [getJobData, fewIds, hk, show ¬ k ≤ 0 by omega, show 1 ≤ k ∧ k ≤ 4 by omega] at hfree
  · obtain rfl | hne := eq_or_ne k 2
    · decide
    · simp [getJobData, fewIds, hne, show ¬ k ≤ 0 by omega, show 1 ≤ k ∧ k ≤ 4 by omega]

/-- The part of `newJob` that gives a job its id and enters it in the table. -/
def newJob (maxJobId : Int) (job : JobRef) (s : IdState) : Option IdState :=
  let (nextId, s) := getNextJobId maxJobId s
  if nextId < 0 then some s else addJobIdHT nextId job s

/-- A submission never hangs, and takes no id from another job. -/
theorem newJob_keeps (job : JobRef) (hmax : 2 ≤ maxJobId) (hn : 0 < s.nextJobId) :
    ∃ s', newJob maxJobId job s = some s' ∧ 0 < s'.nextJobId ∧
      ∀ jobId old, getJobData s jobId = some old → getJobData s' jobId = some old := by
  obtain ⟨jobId, nextJobId, heq, hpos', ⟨rfl, -⟩ | ⟨hpos, hlt, hf⟩⟩ := getNextJobId_cases hmax hn
  · exact ⟨{ s with nextJobId }, by simp [newJob, heq], hpos', fun _ _ h => h⟩
  · have he : s.jobIdHT jobId = none := by simpa [getJobData, show ¬ jobId ≤ 0 by omega] using hf
    refine ⟨{ s with nextJobId, jobIdHT := update s.jobIdHT jobId (some job) }, ?_, hpos', fun k old hold => ?_⟩
    · simp [newJob, heq, addJobIdHT, he, show ¬ jobId < 0 by omega]
    · have hne : k ≠ jobId := by
        rintro rfl
        simp [hf] at hold
      simpa [getJobData, update_of_ne hne] using hold

end

end OpenLava.JobIds

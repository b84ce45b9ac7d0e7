import Mathlib.Tactic
import OpenLava.WordMask

/-!
# Reserved resources

`getReserveValues` puts together what a job and its queue reserve, and `updSharedResourceByRUNJob` takes it from the
instances of a shared resource that the hosts of the job use.
-/

namespace OpenLava.SharedRes

open List WordMask Function

structure LsInfo where
  nRes : Nat
  numeric : Nat → Bool -- `valueType` is `LS_NUMERIC`.

/-- `0x7fffffff` as a `float`. -/
def INFINIT_FLOAT : ℚ := 0x80000000

structure ResVal where
  rusgBitMaps : List (BitVec 32)
  val : Nat → ℚ
  duration : Option Nat -- Without one it is `INFINIT_INT`.
  decay : Option ℚ -- Without one it is `INFINIT_FLOAT`.

def shorter : Option Nat → Option Nat → Option Nat
  | some d, some e => some (if d < e then d else e)
  | some d, none => some d
  | none, e => e

def larger : Option ℚ → Option ℚ → Option ℚ
  | some d, some e => some (if e < d then d else e)
  | some d, none => some d
  | none, e => e

def hasResReserve (r : ResVal) : Bool := r.rusgBitMaps.any (· ≠ 0)

/-- The bits that the loop over the resources sets. -/
def setBits (isSet : Nat → Bool) (maps : List (BitVec 32)) : Nat → List (BitVec 32)
  | 0 => maps
  | i + 1 => if isSet i then turnOn (setBits isSet maps i) i else setBits isSet maps i

def getReserveValues (info : LsInfo) : Option ResVal → Option ResVal → Option ResVal
  | none, none => none
  | none, some q => if hasResReserve q then some q else none
  | some j, none => if hasResReserve j then some j else none
  | some j, some q =>
    if j.rusgBitMaps = q.rusgBitMaps then some j
    else
      let isSet (i : Nat) := info.numeric i && (has j.rusgBitMaps i || has q.rusgBitMaps i)
      some
        { rusgBitMaps := setBits isSet (replicate (info.nRes / 32 + 1) 0#32) info.nRes
          val := fun i => if !isSet i then INFINIT_FLOAT else if has j.rusgBitMaps i then j.val i else q.val i
          duration := shorter j.duration q.duration
          decay := larger j.decay q.decay }

def reserves (r : Option ResVal) (i : Nat) : Bool := r.any (has ·.rusgBitMaps i)

/-- What `r` should be: the two requirements put together. -/
def Combines (info : LsInfo) (j q r : Option ResVal) : Prop :=
  (∀ i < info.nRes, info.numeric i → reserves r i = (reserves j i || reserves q i) ∧
    (reserves r i → r.map (·.val i) = if reserves j i then j.map (·.val i) else q.map (·.val i))) ∧
  ∀ rv ∈ r, rv.duration = shorter (j.bind (·.duration)) (q.bind (·.duration)) ∧
    rv.decay = larger (j.bind (·.decay)) (q.bind (·.decay))

theorem setBits_spec (isSet : Nat → Bool) {maps : List (BitVec 32)} {n : Nat} (hn : n ≤ 32 * maps.length) :
    (setBits isSet maps n).length = maps.length ∧
      ∀ i, has (setBits isSet maps n) i = (has maps i || (decide (i < n) && isSet i)) := by
  induction n with
  | zero => simp [setBits]
  | succ n ih =>
    obtain ⟨hl, hh⟩ := ih (by omega)
    unfold setBits
    split_ifs with hset
    · refine ⟨by simpa [turnOn] using hl, fun i => ?_⟩
      rw [has_turnOn (by decide) (by omega), hh]
      grind
    · refine ⟨hl, fun i => (hh i).trans ?_⟩
      grind

theorem not_has_of_not_hasResReserve {r : ResVal} (h : ¬ hasResReserve r) (i : Nat) : has r.rusgBitMaps i = false := by
  have hz : ∀ w ∈ r.rusgBitMaps, w = 0 := by simpa [hasResReserve] using h
  unfold has
  rw [getD_eq_getElem?_getD]
  cases hw : r.rusgBitMaps[i / 32]? with
  | none => simp
  | some w => simp [hz w (mem_of_getElem? hw)]

theorem shorter_none (d : Option Nat) : shorter d none = d := by cases d <;> rfl

theorem larger_none (d : Option ℚ) : larger d none = d := by cases d <;> rfl

/-- The requirements are put together, unless both name the same resources with another duration or decay. -/
theorem getReserveValues_combines_iff (info : LsInfo) (j q : Option ResVal) :
    Combines info j q (getReserveValues info j q) ↔ ∀ jv ∈ j, ∀ qv ∈ q, jv.rusgBitMaps = qv.rusgBitMaps →
      jv.duration = shorter jv.duration qv.duration ∧ jv.decay = larger jv.decay qv.decay := by
  match j, q with
  | none, none => simp [Combines, getReserveValues, reserves]
  | none, some q =>
    by_cases hq : hasResReserve q
    · simp [Combines, getReserveValues, reserves, hq, shorter, larger]
    · simp [Combines, getReserveValues, reserves, hq, not_has_of_not_hasResReserve hq]
  | some j, none =>
    by_cases hj : hasResReserve j
    · simp +contextual [Combines, getReserveValues, reserves, hj, shorter_none, larger_none]
    · simp [Combines, getReserveValues, reserves, hj, not_has_of_not_hasResReserve hj]
  | some j, some q =>
    by_cases hs : j.rusgBitMaps = q.rusgBitMaps
    · simp +contextual [Combines, getReserveValues, reserves, hs]
    · have hb := (@setBits_spec (fun i => info.numeric i && (has j.rusgBitMaps i || has q.rusgBitMaps i))
        (replicate (info.nRes / 32 + 1) 0#32) info.nRes (by simp; omega)).2
      simp +contextual [Combines, getReserveValues, reserves, hs, hb]
      intro i _ _
      by_cases hj : has j.rusgBitMaps i <;> simp +contextual [hj]

def reserving (duration : Option Nat) : ResVal := ⟨[1], fun _ => 1, duration, none⟩

/-- Both name the same resource, and the longer duration of the job is kept. -/
theorem getReserveValues_not_combines :
    ¬ Combines ⟨1, fun _ => true⟩ (some (reserving (some 9))) (some (reserving (some 5)))
      (getReserveValues ⟨1, fun _ => true⟩ (some (reserving (some 9))) (some (reserving (some 5)))) := by
  intro h
  exact absurd (h.2 (reserving (some 9)) rfl).1 (by decide)

section

variable {H I : Type} [DecidableEq I]

structure JData (H : Type) where
  hPtr : List H
  (resValPtr queueResValPtr : Option ResVal)

/-- What `atof` reads of a value that was printed with `%-10.1f`. -/
def tenths (load : ℚ) : ℚ :=
  let n := ⌊10 * load⌋
  let rest := 10 * load - n
  (if rest < 1 / 2 ∨ (rest = 1 / 2 ∧ n % 2 = 0) then n else n + 1) / 10

/-- The loop over the hosts of a job, for one resource: `inst` is the instance that `getHRValue` finds, and `isSet` the
bit in the `rusgBitMaps`. -/
def takeUsage (unavail : H → Bool) (inst : H → Option I) (jackValue : ℚ) : List H → Bool → (I → ℚ) → I → ℚ
  | [], _, value => value
  | h :: hs, isSet, value =>
    match if unavail h then none else inst h with
    | none => takeUsage unavail inst jackValue hs isSet value
    | some i =>
      if value i < 0 ∨ isSet then takeUsage unavail inst jackValue hs isSet value
      else takeUsage unavail inst jackValue hs true (update value i (tenths (max 0 (value i - jackValue))))

/-- What a running job takes; without a duration the amount stays. -/
def usage (info : LsInfo) (ldx : Nat) (jp : JData H) : Option ℚ :=
  (getReserveValues info jp.resValPtr jp.queueResValPtr).bind fun r =>
    if r.rusgBitMaps.foldl (· + ·) 0#32 = 0#32 ∨ !info.numeric ldx ∨ !has r.rusgBitMaps ldx ∨ INFINIT_FLOAT ≤ |r.val ldx| then none
    else some (r.val ldx)

def updSharedResourceByRUNJob (info : LsInfo) (ldx : Nat) (unavail : H → Bool) (inst : H → Option I) (value : I → ℚ)
    (jp : JData H) : I → ℚ :=
  match usage info ldx jp with
  | none => value
  | some jackValue => takeUsage unavail inst jackValue jp.hPtr false value

/-- One pass over the jobs, from the values that are reported. -/
def passRUNJobs (info : LsInfo) (ldx : Nat) (unavail : H → Bool) (inst : H → Option I) (lsfValue : I → ℚ)
    (jobs : List (JData H)) : I → ℚ :=
  jobs.foldl (updSharedResourceByRUNJob info ldx unavail inst) lsfValue

/-- The usage of the jobs with an execution host in the instance. -/
def used (info : LsInfo) (ldx : Nat) (inst : H → Option I) (i : I) (jobs : List (JData H)) : ℚ :=
  (jobs.map fun jp => if ∃ h ∈ jp.hPtr, inst h = some i then (usage info ldx jp).getD 0 else 0).sum

/-- What the jobs are to leave of the reported value. -/
def left (info : LsInfo) (ldx : Nat) (inst : H → Option I) (lsfValue : I → ℚ) (jobs : List (JData H)) (i : I) : ℚ :=
  max 0 (lsfValue i - used info ldx inst i jobs)

/-- The instance of the first available host that has one. -/
def charged (unavail : H → Bool) (inst : H → Option I) : List H → Option I
  | [] => none
  | h :: hs => if unavail h then charged unavail inst hs else (inst h).or (charged unavail inst hs)

/-- One decimal is enough for what the job leaves of the instance it is charged to, and it takes nothing from the other
instances it has a host in. -/
def Fair (info : LsInfo) (ldx : Nat) (unavail : H → Bool) (inst : H → Option I) (lsfValue : I → ℚ)
    (jobs : List (JData H)) (jp : JData H) : Prop :=
  ∀ u ∈ usage info ldx jp,
    (∀ i ∈ charged unavail inst jp.hPtr, tenths (max 0 (left info ldx inst lsfValue jobs i - u)) =
      left info ldx inst lsfValue (jobs ++ [jp]) i) ∧
    ∀ h ∈ jp.hPtr, ∀ i ∈ inst h, i ∉ charged unavail inst jp.hPtr →
      left info ldx inst lsfValue (jobs ++ [jp]) i = left info ldx inst lsfValue jobs i

variable {unavail : H → Bool} {inst : H → Option I} {jackValue : ℚ}

theorem takeUsage_set (hs : List H) (value : I → ℚ) : takeUsage unavail inst jackValue hs true value = value := by
  induction hs with
  | nil => rfl
  | cons h hs ih =>
    unfold takeUsage
    split
    · exact ih
    · rw [if_pos (.inr rfl), ih]

theorem takeUsage_eq (hs : List H) {value : I → ℚ} (hpos : ∀ i, 0 ≤ value i) :
    takeUsage unavail inst jackValue hs false value = match charged unavail inst hs with
      | none => value
      | some i => update value i (tenths (max 0 (value i - jackValue))) := by
  induction hs with
  | nil => rfl
  | cons h hs ih =>
    unfold takeUsage charged
    cases unavail h with
    | true => exact ih
    | false =>
      cases hi : inst h with
      | none => simpa using ih
      | some i => simp [(hpos i).not_gt, takeUsage_set]

variable {info : LsInfo} {ldx : Nat} {lsfValue : I → ℚ}

theorem used_append (i : I) (jobs : List (JData H)) (jp : JData H) : used info ldx inst i (jobs ++ [jp]) =
    used info ldx inst i jobs + if ∃ h ∈ jp.hPtr, inst h = some i then (usage info ldx jp).getD 0 else 0 := by
  simp [used]

theorem left_append_of_none (hi : ∀ h ∈ jp.hPtr, inst h ≠ some i) (jobs : List (JData H)) :
    left info ldx inst lsfValue (jobs ++ [jp]) i = left info ldx inst lsfValue jobs i := by
  rw [left, used_append, if_neg (by simpa using hi), add_zero, left]

theorem updSharedResourceByRUNJob_eq_iff (jobs : List (JData H)) (jp : JData H) :
    updSharedResourceByRUNJob info ldx unavail inst (left info ldx inst lsfValue jobs) jp =
      left info ldx inst lsfValue (jobs ++ [jp]) ↔ Fair info ldx unavail inst lsfValue jobs jp := by
  unfold updSharedResourceByRUNJob Fair
  cases hu : usage info ldx jp with
  | none =>
    refine iff_of_true (funext fun i => ?_) (by simp)
    simp [left, used_append, hu]
  | some u =>
    simp only [Option.mem_some_iff, forall_eq']
    have hpos : ∀ i, 0 ≤ left info ldx inst lsfValue jobs i := fun i => le_max_left _ _
    rw [takeUsage_eq _ hpos]
    constructor
    · intro h
      refine ⟨fun i hi => ?_, fun x hx i hi hn => ?_⟩
      · rw [Option.mem_def.mp hi] at h
        simpa using congrFun h i
      · cases hc : charged unavail inst jp.hPtr with
        | none =>
          rw [hc] at h
          exact (congrFun h i).symm
        | some k =>
          rw [hc] at h hn
          have hik : i ≠ k := fun h => hn (by simp [h])
          simpa [update_of_ne hik] using (congrFun h i).symm
    · rintro ⟨hfirst, hother⟩
      have hrest : ∀ i ∉ charged unavail inst jp.hPtr,
          left info ldx inst lsfValue (jobs ++ [jp]) i = left info ldx inst lsfValue jobs i := fun i hi => by
        by_cases hx : ∃ h ∈ jp.hPtr, inst h = some i
        · obtain ⟨x, hx, hxi⟩ := hx
          exact hother x hx i hxi hi
        · push Not at hx
          exact left_append_of_none hx jobs
      funext i
      cases hc : charged unavail inst jp.hPtr with
      | none => exact (hrest i (by simp [hc])).symm
      | some k =>
        by_cases hik : i = k
        · subst hik
          simpa using hfirst i (by simp [hc])
        · simpa [update_of_ne hik] using (hrest i (by simpa [hc] using Ne.symm hik)).symm

theorem passRUNJobs_succ (jobs : List (JData H)) (h : n < jobs.length) :
    passRUNJobs info ldx unavail inst lsfValue (jobs.take (n + 1)) =
      updSharedResourceByRUNJob info ldx unavail inst (passRUNJobs info ldx unavail inst lsfValue (jobs.take n)) jobs[n] := by
  rw [passRUNJobs, take_succ_eq_append_getElem h, foldl_append]
  rfl

/-- The values after a pass over the jobs, or over the first of them, are what the jobs leave of the reported ones iff
these are not negative and each job in its turn is fair. -/
theorem passRUNJobs_eq_iff (info : LsInfo) (ldx : Nat) (unavail : H → Bool) (inst : H → Option I) (jobs : List (JData H))
    (lsfValue : I → ℚ) :
    (∀ n, passRUNJobs info ldx unavail inst lsfValue (jobs.take n) = left info ldx inst lsfValue (jobs.take n)) ↔
      (∀ i, 0 ≤ lsfValue i) ∧
        ∀ n (h : n < jobs.length), Fair info ldx unavail inst lsfValue (jobs.take n) jobs[n] := by
  have hstep : ∀ n (h : n < jobs.length),
      passRUNJobs info ldx unavail inst lsfValue (jobs.take n) = left info ldx inst lsfValue (jobs.take n) →
      (passRUNJobs info ldx unavail inst lsfValue (jobs.take (n + 1)) = left info ldx inst lsfValue (jobs.take (n + 1)) ↔
        Fair info ldx unavail inst lsfValue (jobs.take n) jobs[n]) := fun n h hn => by
    rw [passRUNJobs_succ jobs h, hn, take_succ_eq_append_getElem h]
    exact updSharedResourceByRUNJob_eq_iff ..
  constructor
  · refine fun h => ⟨fun i => ?_, fun n hn => (hstep n hn (h n)).mp (h (n + 1))⟩
    have hi : lsfValue i = max 0 (lsfValue i) := by simpa [passRUNJobs, left, used] using congrFun (h 0) i
    rw [hi]
    exact le_max_left _ _
  · rintro ⟨hpos, hfair⟩ n
    induction n with
    | zero => funext i; simp [passRUNJobs, left, used, hpos i]
    | succ n ih =>
      rcases lt_or_ge n jobs.length with hn | hn
      · exact (hstep n hn ih).mpr (hfair n hn)
      · rwa [take_of_length_le (by omega), ← take_of_length_le hn]

end

def oneInfo : LsInfo := ⟨1, fun _ => true⟩

/-- A job with hosts in two instances takes its usage from the first only. -/
theorem passRUNJobs_first_only :
    let jobs : List (JData Nat) := [⟨[0, 1], some (reserving none), none⟩]
    passRUNJobs oneInfo 0 (fun _ => false) (some : Nat → Option Nat) (fun _ => 2) jobs 1 = 2 ∧
      left oneInfo 0 (some : Nat → Option Nat) (fun _ => 2) jobs 1 = 1 := by
  decide +kernel

/-- A job that takes less than half a tenth takes nothing. -/
example : tenths (max 0 (1 - 1 / 25)) = 1 := by decide +kernel

end OpenLava.SharedRes

import Mathlib.Tactic.Linarith

/-!
# Resuming a job by the load of its hosts

`checkResumeByLoad` of `misc.c`. With a resume condition the loop over the hosts ends at the first one that satisfies
it. A float is a rational number.
-/

namespace OpenLava.Resume

def INFINIT_LOAD : ℚ := 2 ^ 31

def SUSP_HOST_LOCK : Nat := 0x20

def SUSP_LOAD_REASON : Nat := 0x40

def SUSP_QUE_RESUME_COND : Nat := 0x400

def SUSP_PG_IT : Nat := 0x800

def SUSP_LOAD_UNAVAIL : Nat := 0x2000

def SUSP_MBD_LOCK : Nat := 0x10000

def SUSP_HOST_LOCK_MASTER : Nat := 0x80000

/-- The places of the load indices of `lsindx_t`. -/
def R15S : Nat := 0
def R1M : Nat := 1
def R15M : Nat := 2
def UT : Nat := 3
def PG : Nat := 4
def IO_ : Nat := 5
def LS : Nat := 6
def IT : Nat := 7
def TMP : Nat := 8
def SWP : Nat := 9
def MEM : Nat := 10

/-- An execution host: its load, its status, its row of `thresholds.loadSched`. -/
structure Host (T : Type) where
  li : Option (Nat → ℚ)
  (unavail lockedU lockedM : Bool := false)
  loadSched : Nat → ℚ
  tclHostData : T

/-- What does not depend on the host; `numIdx` is the smaller of `nIdx` and `numIndx`. -/
structure Params (T : Type) where
  numIdx : Nat
  incr : Nat → Bool
  pgSuspIdleT : Int
  exclusive : Bool
  resumeCond : Option (T → Bool)

structure Reasons where
  (reason subreasons : Nat)
  deriving DecidableEq, Repr

variable {T : Type} (c : Params T)

/-- The first tests on a host: the reasons if one of them fails. -/
def locked (h : Host T) (li : Nat → ℚ) (r : Reasons) : Option Reasons :=
  if (r.reason &&& SUSP_PG_IT ≠ 0 ∨ r.reason &&& SUSP_LOAD_REASON ≠ 0 ∧ r.subreasons = PG) ∧
      li IT < c.pgSuspIdleT.tdiv 60 ∧ h.loadSched PG ≠ INFINIT_LOAD then some ⟨SUSP_PG_IT, 0⟩
  else if h.unavail then some { r with reason := SUSP_LOAD_UNAVAIL }
  else if h.lockedU ∧ c.exclusive = false then some { r with reason := SUSP_HOST_LOCK }
  else if h.lockedM then some { r with reason := SUSP_HOST_LOCK_MASTER }
  else none

def finite (x : ℚ) : Bool := x < INFINIT_LOAD ∧ -INFINIT_LOAD < x

/-- The first load index beyond its threshold: those of the system, then the others while finite. -/
def exceeded (li loadSched : Nat → ℚ) : Option Nat :=
  ([R15M, R1M, R15S, UT, PG, IO_, LS].find? fun i => li i > loadSched i).or <|
    ([IT, MEM, TMP, SWP].find? fun i => li i < loadSched i).or <|
      (List.range' (MEM + 1) (c.numIdx - (MEM + 1))).find? fun i => finite (li i) ∧ finite (loadSched i) ∧
        if c.incr i then li i > loadSched i else li i < loadSched i

/-- The loop over the hosts, with `resume` and the reasons so far. -/
def resumeLoop : List (Host T) → Bool → Reasons → Bool × Reasons
  | [], resume, r => (resume, r)
  | h :: hosts, resume, r =>
    match h.li with
    | none => resumeLoop hosts resume r
    | some li =>
      match locked c h li r with
      | some r => (false, r)
      | none =>
        if resume = false then (false, r)
        else
          match c.resumeCond with
          | some cond => if cond h.tclHostData then (true, r) else (false, { r with reason := SUSP_QUE_RESUME_COND })
          | none =>
            match exceeded c li h.loadSched with
            | some i => resumeLoop hosts false ⟨SUSP_LOAD_REASON, i⟩
            | none => resumeLoop hosts true r

def checkResumeByLoad (hosts : List (Host T)) (r : Reasons) : Bool × Reasons :=
  if hosts = [] then (false, r)
  else
    let x := resumeLoop c hosts true r
    (x.1, if r.reason &&& SUSP_MBD_LOCK ≠ 0 then { x.2 with reason := x.2.reason ||| SUSP_MBD_LOCK } else x.2)

structure Within (li loadSched : Nat → ℚ) : Prop where
  low : ∀ i ∈ [R15S, R1M, R15M, UT, PG, IO_, LS], li i ≤ loadSched i
  high : ∀ i ∈ [IT, TMP, SWP, MEM], loadSched i ≤ li i
  others : ∀ i, MEM < i → i < c.numIdx → finite (li i) → finite (loadSched i) →
    if c.incr i then li i ≤ loadSched i else loadSched i ≤ li i

structure Resumable (h : Host T) (li : Nat → ℚ) : Prop where
  avail : h.unavail = false
  unlocked : h.lockedU = false ∧ h.lockedM = false
  cond : ∀ cond ∈ c.resumeCond, cond h.tclHostData = true
  within : c.resumeCond = none → Within c li h.loadSched

variable {c}

theorem within_of_exceeded (h : exceeded c li loadSched = none) : Within c li loadSched := by
  simp only [exceeded, Option.or_eq_none_iff, List.find?_eq_none, decide_eq_true_eq, not_lt, gt_iff_lt, List.mem_range'_1,
    not_and] at h
  obtain ⟨hl, hh, ho⟩ := h
  refine ⟨fun i hi => hl i ?_, fun i hi => hh i ?_, fun i hmem hi hli hs => ?_⟩
  · simp only [List.mem_cons] at hi ⊢
    tauto
  · simp only [List.mem_cons] at hi ⊢
    tauto
  · have := ho i ⟨hmem, by omega⟩ hli hs
    split at this <;> simp_all

/-- The host passes the tests that the loop makes of it. -/
def Passes (c : Params T) (r : Reasons) (x : Host T × (Nat → ℚ)) : Prop :=
  locked c x.1 x.2 r = none ∧
    match c.resumeCond with
    | some cond => cond x.1.tclHostData = true
    | none => exceeded c x.2 x.1.loadSched = none

theorem Passes.resumable (h : Passes c r x) (hu : c.exclusive = true → x.1.lockedU = false) :
    Resumable c x.1 x.2 := by
  obtain ⟨hl, hc⟩ := h
  unfold locked at hl
  split_ifs at hl with _ ha hlockedU hlockedM
  refine ⟨by simpa using ha, ⟨?_, by simpa using hlockedM⟩, fun cond hcond => ?_, fun hn => ?_⟩
  · cases he : c.exclusive with
    | true => exact hu he
    | false => simpa [he] using hlockedU
  · simpa [Option.mem_def.mp hcond] using hc
  · rw [hn] at hc
    exact within_of_exceeded hc

/-- The hosts with load information. -/
def loaded (hosts : List (Host T)) : List (Host T × (Nat → ℚ)) :=
  hosts.filterMap fun h => h.li.map (h, ·)

/-- The hosts that the loop comes to: with a resume condition only the first. -/
def asked (c : Params T) (hosts : List (Host T)) : List (Host T × (Nat → ℚ)) :=
  if c.resumeCond.isSome then (loaded hosts).take 1 else loaded hosts

def unasked (c : Params T) (hosts : List (Host T)) : List (Host T × (Nat → ℚ)) :=
  if c.resumeCond.isSome then (loaded hosts).drop 1 else []

theorem asked_append_unasked (c : Params T) (hosts : List (Host T)) :
    asked c hosts ++ unasked c hosts = loaded hosts := by
  unfold asked unasked
  split_ifs
  · exact List.take_append_drop ..
  · exact List.append_nil _

theorem resumeLoop_false (hosts : List (Host T)) (r : Reasons) :
    (resumeLoop c hosts false r).1 = false := by
  induction hosts with
  | nil => rfl
  | cons h hosts ih =>
    cases hli : h.li with
    | none => simpa [resumeLoop, hli] using ih
    | some li => cases hl : locked c h li r <;> simp [resumeLoop, hli, hl]

/-- The loop comes to `TRUE` iff every host it comes to passes. -/
theorem resumeLoop_true_iff (hosts : List (Host T)) (r : Reasons) :
    (resumeLoop c hosts true r).1 = true ↔ ∀ x ∈ asked c hosts, Passes c r x := by
  induction hosts with
  | nil => simp [resumeLoop, asked, loaded]
  | cons h hosts ih =>
    cases hli : h.li with
    | none => simpa [resumeLoop, asked, loaded, hli] using ih
    | some li =>
      have hload : loaded (h :: hosts) = (h, li) :: loaded hosts := by simp [loaded, hli]
      cases hl : locked c h li r with
      | some r' =>
        have hmem : (h, li) ∈ asked c (h :: hosts) := by
          unfold asked
          split_ifs <;> simp [hload]
        refine iff_of_false (by simp [resumeLoop, hli, hl]) fun ha => ?_
        exact absurd (ha _ hmem).1 (by simp [hl])
      | none =>
        cases hc : c.resumeCond with
        | some cond =>
          cases hcond : cond h.tclHostData <;>
            simp [resumeLoop, asked, hload, hli, hl, hc, Passes, hcond]
        | none =>
          simp only [asked, hc, Option.isSome_none, Bool.false_eq_true, if_false] at ih ⊢
          rw [hload, List.forall_mem_cons, ← ih]
          cases ho : exceeded c li h.loadSched <;>
            simp [resumeLoop, hli, hl, hc, Passes, ho, resumeLoop_false]

/-- `TRUE` only if all hosts allow it, iff a host that the loop comes to fails, or no such host of an
exclusive queue is locked by a user and the hosts behind the first with a condition allow it too. -/
theorem checkResumeByLoad_resumable_iff (hosts : List (Host T)) (r : Reasons) :
    ((checkResumeByLoad c hosts r).1 = true → ∀ x ∈ loaded hosts, Resumable c x.1 x.2) ↔
      (∃ x ∈ asked c hosts, ¬ Passes c r x) ∨
        (c.exclusive = true → ∀ x ∈ asked c hosts, x.1.lockedU = false) ∧
          ∀ x ∈ unasked c hosts, Resumable c x.1 x.2 := by
  by_cases hn : hosts = []
  · subst hn
    simp [checkResumeByLoad, asked, unasked, loaded]
  have hcheck : (checkResumeByLoad c hosts r).1 = true ↔ ∀ x ∈ asked c hosts, Passes c r x := by
    simp only [checkResumeByLoad, if_neg hn]
    exact resumeLoop_true_iff hosts r
  rw [hcheck, ← asked_append_unasked c hosts]
  simp only [List.forall_mem_append]
  constructor
  · intro h
    by_cases hp : ∀ x ∈ asked c hosts, Passes c r x
    · exact .inr ⟨fun _ x hx => ((h hp).1 x hx).unlocked.1, (h hp).2⟩
    · exact .inl (by simpa using hp)
  · rintro (⟨x, hx, hx'⟩ | ⟨hu, hr⟩) hp
    · exact absurd (hp x hx) hx'
    · exact ⟨fun x hx => (hp x hx).resumable fun he => hu he x hx, hr⟩

/-- The resume condition is that the number of a host is not 0. -/
def notZero : Params Nat where
  numIdx := 11
  incr := fun _ => true
  pgSuspIdleT := 180
  exclusive := false
  resumeCond := some (· ≠ 0)

def idle (n : Nat) (unavail : Bool) : Host Nat where
  li := some fun _ => 0
  unavail
  loadSched := fun _ => 0
  tclHostData := n

/-- The first host satisfies the condition, and the second is unavailable. -/
theorem checkResumeByLoad_unavail :
    ¬ ((checkResumeByLoad notZero [idle 1 false, idle 2 true] ⟨0, 0⟩).1 = true →
      ∀ x ∈ loaded [idle 1 false, idle 2 true], Resumable notZero x.1 x.2) := by
  intro h
  have hr := h (by decide) (idle 2 true, fun _ => 0) (by simp [loaded, idle])
  exact absurd hr.avail (by decide)

end OpenLava.Resume

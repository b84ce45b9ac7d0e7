import OpenLava.Ledger
import OpenLava.Mbd.State

/-!
# Job priorities that grow with the time in the queue

`JOB_PRIORITY_OVER_TIME = v/t` asks for `v` points every `t` minutes. `setJobPriUpdIntvl` cuts the `t` minutes into `m`
intervals, and `updateJobPriorityInPJL` adds `0, v/m, 2v/m, ...`, each rounded down; their sum is `v` only by chance.
-/

namespace OpenLava.Ageing

open Ledger (updateEach)

def MAX_JOB_PRIORITY : Int := 0x7fffffff

def INT_MAX : Int := 0x7fffffff

def MINIMAL : Int := 5

/-- In minutes; between 6 and 9 the interval of an earlier call stays. -/
def setJobPriUpdIntvl (jobPriorityValue jobPriorityTime jobPriorityUpdIntvl : Int) : Int :=
  if jobPriorityValue < 0 ∨ jobPriorityTime < 0 then -1
  else if jobPriorityTime ≤ MINIMAL then jobPriorityTime
  else
    match [16, 8, 4, 2].find? fun value : Int => MINIMAL ≤ jobPriorityTime / value with
    | some value => jobPriorityTime / value
    | none => if jobPriorityUpdIntvl < 0 then MINIMAL else jobPriorityUpdIntvl

/-- The static `count` of `updateJobPriorityInPJL`, and the priorities of the jobs. -/
structure Priorities where
  count : Int := 0
  jobPriority : JobRef → Int

/-- The loop over `jDataList[PJL]`; `newVal` is an `unsigned int`. -/
def raise (priority : Int) (pjl : List JobRef) (jobPriority : JobRef → Int) : JobRef → Int :=
  updateEach (fun _ p => min ((p + priority) % 2 ^ 32) MAX_JOB_PRIORITY) pjl jobPriority

/-- For the jobs in `jDataList[PJL]`; `none`: a division by zero or an overflow. -/
def updateJobPriorityInPJL (jobPriorityValue jobPriorityTime jobPriorityUpdIntvl : Int) (pjl : List JobRef)
    (s : Priorities) : Option Priorities :=
  if jobPriorityTime ≠ jobPriorityUpdIntvl then
    let term := jobPriorityTime / jobPriorityUpdIntvl
    let count := (s.count + 1) % term
    if jobPriorityUpdIntvl = 0 ∨ term = 0 ∨ INT_MAX < count * jobPriorityValue then none
    else some { count, jobPriority := raise (count * jobPriorityValue / term) pjl s.jobPriority }
  else some { s with jobPriority := raise jobPriorityValue pjl s.jobPriority }

def updates (jobPriorityValue jobPriorityTime jobPriorityUpdIntvl : Int) :
    List (List JobRef) → Priorities → Option Priorities
  | [], s => some s
  | pjl :: pjls, s =>
    (updateJobPriorityInPJL jobPriorityValue jobPriorityTime jobPriorityUpdIntvl pjl s).bind
      (updates jobPriorityValue jobPriorityTime jobPriorityUpdIntvl pjls)

/-- The priority of a job by its age; the age in minutes is an `unsigned long`. -/
def modifyJobPriority (jobPriorityValue jobPriorityTime curTime subTime subPriority : Int) : Int :=
  let timeIntvl := (curTime - subTime) / 60
  if jobPriorityValue < 0 ∨ jobPriorityTime < 0 then subPriority
  else
    let newVal := (subPriority + timeIntvl * jobPriorityValue % 2 ^ 64 / jobPriorityTime) % 2 ^ 32
    min newVal MAX_JOB_PRIORITY

section

theorem setJobPriUpdIntvl_short (hv : 0 < v) (ht : 0 < t) (h : t ≤ 5) : setJobPriUpdIntvl v t i = t := by
  have h' : t ≤ MINIMAL := h
  rw [setJobPriUpdIntvl, if_neg (by omega), if_pos h']

theorem divisor_eq (t : Int) : [16, 8, 4, 2].find? (fun value : Int => MINIMAL ≤ t / value) =
    if 80 ≤ t then some 16 else if 40 ≤ t then some 8 else if 20 ≤ t then some 4 else if 10 ≤ t then some 2 else none := by
  have hf : ∀ value : Int, 0 < value → decide (MINIMAL ≤ t / value) = decide (5 * value ≤ t) := fun value hpos =>
    decide_eq_decide.mpr (Int.le_ediv_iff_mul_le hpos)
  split_ifs <;> simp [*]

/-- The interval of a longer time: a fixed part of it, or five minutes. -/
theorem setJobPriUpdIntvl_long (hv : 0 < v) (h : 6 ≤ t) (hi : i < 0) : (t < 10 ∧ setJobPriUpdIntvl v t i = 5) ∨
    (10 ≤ t ∧ t < 20 ∧ setJobPriUpdIntvl v t i = t / 2) ∨ (20 ≤ t ∧ t < 40 ∧ setJobPriUpdIntvl v t i = t / 4) ∨
    (40 ≤ t ∧ t < 80 ∧ setJobPriUpdIntvl v t i = t / 8) ∨ (80 ≤ t ∧ setJobPriUpdIntvl v t i = t / 16) := by
  have hl : ¬ t ≤ MINIMAL := by
    rw [MINIMAL]
    omega
  rw [setJobPriUpdIntvl, if_neg (by omega), if_neg hl, divisor_eq]
  split_ifs with h80 h40 h20 h10
  · exact .inr (.inr (.inr (.inr ⟨h80, rfl⟩)))
  · exact .inr (.inr (.inr (.inl ⟨h40, by omega, rfl⟩)))
  · exact .inr (.inr (.inl ⟨h20, by omega, rfl⟩))
  · exact .inr (.inl ⟨h10, by omega, rfl⟩)
  · exact .inl ⟨by omega, rfl⟩

end

section

open Finset

/-- What a call adds that leaves the count at `n % m`. -/
def part (v m n : Nat) : Nat := n % m * v / m

/-- What `n` calls add, the first of which counts to `c`. -/
def rise (v m c n : Nat) : Nat := ∑ i ∈ range n, part v m (c + i)

def cycle (v m : Nat) : Nat := ∑ c ∈ range m, c * v / m

variable (v m c : Nat)

theorem part_add : part v m (c + m) = part v m c := by simp [part]

theorem part_mod_add (n : Nat) : part v m (c % m + n) = part v m (c + n) := by simp [part]

theorem part_le (h : 0 < m) : part v m c ≤ v := by
  have hlt : c % m < m := Nat.mod_lt c h
  exact Nat.div_le_of_le_mul (Nat.mul_le_mul_right v hlt.le)

theorem rise_succ (n : Nat) : rise v m c (n + 1) = part v m c + rise v m (c % m + 1) n := by
  rw [rise, sum_range_succ', add_comm, rise, Nat.add_zero]
  congr 1
  refine sum_congr rfl fun i _ => ?_
  rw [Nat.add_assoc (c % m), part_mod_add, Nat.add_comm 1 i]

theorem rise_cycle : rise v m c m = cycle v m := by
  induction c with
  | zero =>
    refine sum_congr rfl fun i hi => ?_
    rw [Nat.zero_add, part, Nat.mod_eq_of_lt (mem_range.mp hi)]
  | succ c ih =>
    -- the window moves by one: the part that leaves is the one that enters
    have hl := sum_range_succ' (fun i => part v m (c + i)) m
    have hr := sum_range_succ (fun i => part v m (c + i)) m
    rw [hr, part_add, Nat.add_zero] at hl
    rw [← ih, rise, rise, Nat.add_right_cancel hl]
    exact sum_congr rfl fun i _ => by rw [Nat.add_right_comm, Nat.add_assoc]

theorem rise_add (n k : Nat) : rise v m c (n + k) = rise v m c n + rise v m (c + n) k := by
  rw [rise, sum_range_add, rise, rise]
  congr 1
  exact sum_congr rfl fun i _ => by rw [Nat.add_assoc]

theorem rise_cycles (k : Nat) : rise v m c (k * m) = k * cycle v m := by
  induction k with
  | zero => simp [rise]
  | succ k ih => rw [Nat.succ_mul, rise_add, ih, rise_cycle, Nat.succ_mul]

theorem pair_ge (hm : 0 < m) (h : a + b = m) : v ≤ a * v / m + b * v / m + 1 := by
  have hs : (a * v + b * v) / m = v := by rw [← Nat.add_mul, h, Nat.mul_div_cancel_left v hm]
  have ha := Nat.add_div hm (a := a * v) (b := b * v)
  split_ifs at ha <;> omega

/-- A cycle adds about half of `v` for each of its calls. -/
theorem cycle_ge : (v - 1) * (m - 1) ≤ 2 * cycle v m := by
  cases m with
  | zero => simp
  | succ n =>
    have ht : cycle v (n + 1) = ∑ c ∈ range n, (c + 1) * v / (n + 1) := by
      rw [cycle, sum_range_succ']
      simp
    have hpai : ∑ c ∈ range n, (c + 1) * v / (n + 1) + ∑ c ∈ range n, (n - 1 - c + 1) * v / (n + 1) =
        2 * cycle v (n + 1) := by
      rw [sum_range_reflect (fun c => (c + 1) * v / (n + 1)) n, ht]
      omega
    calc (v - 1) * (n + 1 - 1) = ∑ c ∈ range n, (v - 1) := by rw [sum_const, card_range, smul_eq_mul, Nat.mul_comm]; rfl
      _ ≤ ∑ c ∈ range n, ((c + 1) * v / (n + 1) + (n - 1 - c + 1) * v / (n + 1)) := by
        refine sum_le_sum fun c hc => ?_
        have hlt := mem_range.mp hc
        exact Nat.sub_le_of_le_add (pair_ge v (n + 1) (Nat.succ_pos n) (by omega))
      _ = 2 * cycle v (n + 1) := by rw [sum_add_distrib, hpai]

theorem cycle_ne (hv : 0 < v) (hm : 8 ≤ m) : cycle v m ≠ v := by
  rcases Nat.lt_or_ge 1 v with h | h
  · have hge := cycle_ge v m
    have hmul : (v - 1) * 7 ≤ (v - 1) * (m - 1) := Nat.mul_le_mul_left _ (by omega)
    omega
  · have ho : v = 1 := by omega
    subst ho
    have hz : cycle 1 m = 0 := sum_eq_zero fun c hc => by
      rw [Nat.mul_one, Nat.div_eq_of_lt (mem_range.mp hc)]
    omega

theorem cycle_one : cycle v 1 = 0 := by simp [cycle]

theorem cycle_two : cycle v 2 = v / 2 := by simp [cycle, sum_range_succ]

theorem cycle_four : cycle v 4 = v / 4 + 2 * v / 4 + 3 * v / 4 := by simp [cycle, sum_range_succ]

end

section

variable {j : JobRef} {s s' : Priorities}

theorem raise_job (hpjl : pjl.Nodup ∧ j ∈ pjl) (hp : 0 ≤ p)
    (hpmax : p ≤ MAX_JOB_PRIORITY) (h0 : 0 ≤ jobPriority j) (hmax : jobPriority j ≤ MAX_JOB_PRIORITY) :
    raise p pjl jobPriority j = min MAX_JOB_PRIORITY (jobPriority j + p) := by
  rw [MAX_JOB_PRIORITY] at hpmax hmax
  have hmod : (jobPriority j + p) % 2 ^ 32 = jobPriority j + p := Int.emod_eq_of_lt (by omega) (by omega)
  rw [raise, Ledger.updateEach_apply_of_nodup _ hpjl.1, if_pos hpjl.2, hmod, min_comm]

/-- What a call does to the count and to a job that waits, if the interval divides the time. -/
theorem updateJobPriorityInPJL_part {v t i c : Nat} (hne : t ≠ i) (ht : 0 < t / i)
    (hv : (v : Int) ≤ MAX_JOB_PRIORITY) (hc : s.count = c) (hpjl : pjl.Nodup ∧ j ∈ pjl) (h0 : 0 ≤ s.jobPriority j)
    (hmax : s.jobPriority j ≤ MAX_JOB_PRIORITY) (h : updateJobPriorityInPJL v t i pjl s = some s') : s'.count =
    ((c + 1) % (t / i) : Nat) ∧ s'.jobPriority j = min MAX_JOB_PRIORITY (s.jobPriority j + part v (t / i) (c + 1)) := by
  have hne' : (t : Int) ≠ i := by exact_mod_cast hne
  simp only [updateJobPriorityInPJL, ne_eq, hne', not_false_eq_true, if_true, hc] at h
  split at h
  · cases h
  · obtain rfl := Option.some.inj h
    have hpart : (((c : Int) + 1) % ((t : Int) / i) * v / ((t : Int) / i)) = part v (t / i) (c + 1) := by
      rw [part]
      rfl
    refine ⟨by push_cast; rfl, ?_⟩
    rw [hpart]
    have hle := part_le v (t / i) (c + 1) ht
    exact raise_job hpjl (by omega) (by omega) h0 hmax

def Waits (j : JobRef) (pjls : List (List JobRef)) : Prop := ∀ pjl ∈ pjls, pjl.Nodup ∧ j ∈ pjl

theorem cap_add (p a b : Int) (hb : 0 ≤ b) :
    min MAX_JOB_PRIORITY (min MAX_JOB_PRIORITY (p + a) + b) = min MAX_JOB_PRIORITY (p + (a + b)) := by
  omega

theorem cap_bounds (hp : 0 ≤ p) (ha : 0 ≤ a) (h : p' = min MAX_JOB_PRIORITY (p + a)) : 0 ≤ p' ∧ p' ≤ MAX_JOB_PRIORITY := by
  rw [h]
  exact ⟨le_min (by decide) (by omega), min_le_left _ _⟩

theorem updates_part {v t i : Nat} (hne : t ≠ i) (ht : 0 < t / i) (hv : (v : Int) ≤ MAX_JOB_PRIORITY)
    (pjls : List (List JobRef)) (hj : Waits j pjls) {c : Nat} (hc : s.count = c) (h0 : 0 ≤ s.jobPriority j)
    (hmax : s.jobPriority j ≤ MAX_JOB_PRIORITY) (h : updates v t i pjls s = some s') :
    s'.jobPriority j = min MAX_JOB_PRIORITY (s.jobPriority j + rise v (t / i) (c + 1) pjls.length) := by
  induction pjls generalizing s c with
  | nil =>
    obtain rfl := Option.some.inj h
    simp [rise, hmax]
  | cons pjl pjls ih =>
    obtain ⟨s1, h1, h⟩ := Option.bind_eq_some_iff.mp h
    obtain ⟨hc1, hp1⟩ := updateJobPriorityInPJL_part hne ht hv hc (hj pjl List.mem_cons_self) h0 hmax h1
    obtain ⟨h01, hmax1⟩ := cap_bounds h0 (Int.natCast_nonneg _) hp1
    rw [ih (fun l hl => hj l (List.mem_cons_of_mem _ hl)) hc1 h01 hmax1 h, hp1, List.length_cons, rise_succ,
      cap_add _ _ _ (Int.natCast_nonneg _)]
    rfl

theorem updates_part_some {v t i : Nat} (hne : t ≠ i) (hi : 0 < i) (ht : 0 < t / i)
    (hfit : ((t / i * v : Nat) : Int) ≤ INT_MAX) (pjls : List (List JobRef)) (s : Priorities) : ∃ s', updates v t i pjls s = some s' := by
  induction pjls generalizing s with
  | nil => exact ⟨s, rfl⟩
  | cons pjl pjls ih =>
    have hne' : (t : Int) ≠ i := by exact_mod_cast hne
    have ht' : (0 : Int) < (t : Int) / i := by exact_mod_cast ht
    have hlt : (s.count + 1) % ((t : Int) / i) * v ≤ (t : Int) / i * v :=
      Int.mul_le_mul_of_nonneg_right (Int.emod_lt_of_pos _ ht').le (Int.natCast_nonneg v)
    have hc : ∃ s1, updateJobPriorityInPJL v t i pjl s = some s1 := by
      simp only [updateJobPriorityInPJL, ne_eq, hne', not_false_eq_true, if_true]
      rw [if_neg]
      · exact ⟨_, rfl⟩
      · push_cast at hfit
        omega
    obtain ⟨s1, h1⟩ := hc
    obtain ⟨s', h'⟩ := ih s1
    exact ⟨s', by rw [updates, h1]; exact h'⟩

theorem updateJobPriorityInPJL_whole (hv : 0 ≤ v) (hvmax : v ≤ MAX_JOB_PRIORITY)
    (hpjl : pjl.Nodup ∧ j ∈ pjl) (h0 : 0 ≤ s.jobPriority j) (hmax : s.jobPriority j ≤ MAX_JOB_PRIORITY) :
    ∃ s', updateJobPriorityInPJL v t t pjl s = some s' ∧ s'.jobPriority j = min MAX_JOB_PRIORITY (s.jobPriority j + v) := by
  refine ⟨{ s with jobPriority := raise v pjl s.jobPriority }, by simp [updateJobPriorityInPJL], ?_⟩
  exact raise_job hpjl hv hvmax h0 hmax

theorem updates_whole (hv : 0 ≤ v) (hvmax : v ≤ MAX_JOB_PRIORITY) (pjls : List (List JobRef)) (hj : Waits j pjls)
    (h0 : 0 ≤ s.jobPriority j) (hmax : s.jobPriority j ≤ MAX_JOB_PRIORITY) : ∃ s', updates v t t pjls s = some s' ∧
    s'.jobPriority j = min MAX_JOB_PRIORITY (s.jobPriority j + pjls.length * v) := by
  induction pjls generalizing s with
  | nil => exact ⟨s, rfl, by simp [hmax]⟩
  | cons pjl pjls ih =>
    obtain ⟨s1, h1, hp1⟩ := updateJobPriorityInPJL_whole (t := t) hv hvmax (hj pjl List.mem_cons_self) h0 hmax
    obtain ⟨h01, hmax1⟩ := cap_bounds h0 hv hp1
    obtain ⟨s', h', hp'⟩ := ih (fun l hl => hj l (List.mem_cons_of_mem _ hl)) h01 hmax1
    refine ⟨s', by rw [updates, h1]; exact h', ?_⟩
    rw [hp', hp1, cap_add _ _ _ (Int.mul_nonneg (Int.natCast_nonneg _) hv), List.length_cons]
    push_cast
    congr 1
    ring

end

/-- With a call in every interval a waiting job gains `v` points in `t` minutes. -/
def Ages (v t jobPriorityUpdIntvl : Int) : Prop :=
  ∀ (k : Nat) (pjls : List (List JobRef)) (j : JobRef) (s : Priorities), 0 ≤ s.count → 0 ≤ s.jobPriority j →
    s.jobPriority j ≤ MAX_JOB_PRIORITY → (pjls.length : Int) = k * t / jobPriorityUpdIntvl → Waits j pjls →
    ∃ s', updates v t jobPriorityUpdIntvl pjls s = some s' ∧
      s'.jobPriority j = min MAX_JOB_PRIORITY (s.jobPriority j + k * v)

section

variable {v t i m : Nat}

theorem Ages.of_whole {v t : Int} (hv : 0 < v) (hvmax : v < MAX_JOB_PRIORITY) (ht : 0 < t) : Ages v t t := by
  intro k pjls j s _ h0 hmax hl hj
  obtain ⟨s', h, hp⟩ := updates_whole (t := t) hv.le hvmax.le pjls hj h0 hmax
  rw [Int.mul_ediv_cancel _ (by omega)] at hl
  exact ⟨s', h, by rw [hp, hl]⟩

theorem Ages.of_cycle (hi : 0 < i) (hm : 1 < m) (hv : (v : Int) < MAX_JOB_PRIORITY)
    (hfit : ((m * v : Nat) : Int) ≤ INT_MAX) (hcyc : cycle v m = v) : Ages v (m * i : Nat) i := by
  intro k pjls j s hc h0 hmax hl hj
  obtain ⟨c, hc⟩ := Int.eq_ofNat_of_zero_le hc
  have ht : m * i / i = m := Nat.mul_div_cancel m hi
  have hne : m * i ≠ i := by nlinarith
  have hcal : pjls.length = k * m := by
    have ha : (k : Int) * (m * i : Nat) = (k * m : Nat) * i := by push_cast; ring
    rw [ha, Int.mul_ediv_cancel _ (by omega)] at hl
    exact_mod_cast hl
  obtain ⟨s', h⟩ := updates_part_some hne hi (by omega) (by rw [ht]; exact hfit) pjls s
  refine ⟨s', h, ?_⟩
  rw [updates_part hne (by omega) hv.le pjls hj hc h0 hmax h, ht, hcal, rise_cycles, hcyc]
  rfl

theorem Ages.rise_eq (h : Ages v t i) (hne : t ≠ i) (ht : 0 < t / i) (hv : (v : Int) < MAX_JOB_PRIORITY)
    (k c : Nat) (hk : ((k * v : Nat) : Int) < MAX_JOB_PRIORITY) : rise v (t / i) (c + 1) (k * t / i) = k * v := by
  have hj : Waits 0 (List.replicate (k * t / i) [0]) := fun l hl => by
    rw [List.eq_of_mem_replicate hl]
    exact ⟨List.nodup_singleton 0, List.mem_cons_self⟩
  have hc : (0 : Int) ≤ MAX_JOB_PRIORITY := by decide
  obtain ⟨s', hs', hp⟩ := h k (List.replicate (k * t / i) [0]) 0 { count := c, jobPriority := fun _ => 0 }
    (Int.natCast_nonneg c) le_rfl hc (by rw [List.length_replicate]; push_cast; rfl) hj
  have hr := updates_part hne ht hv.le _ hj rfl le_rfl hc hs'
  rw [hp, List.length_replicate] at hr
  push_cast at hk hr
  zify
  omega

theorem Ages.cycle_eq (h : Ages v t i) (hne : t ≠ i) (ht : 0 < t / i) (hv : (v : Int) < MAX_JOB_PRIORITY) :
    cycle v (t / i) = v := by
  have hr := h.rise_eq hne ht hv 1 0 (by simpa using hv)
  rwa [Nat.one_mul, Nat.one_mul, rise_cycle] at hr

/-- With four intervals and some minutes more, the calls drift into the next period. -/
theorem Ages.drift (hr : 0 < r) (hri : 4 * i + r < 5 * i) (hi : i < 10) (hv : 2 ≤ v) (hv3 : v ≤ 3)
    (h : Ages v (4 * i + r : Nat) i) : False := by
  have ht : (4 * i + r) / i = 4 := Nat.div_eq_of_lt_le (by omega) (by omega)
  have hk : ((i * v : Nat) : Int) < MAX_JOB_PRIORITY := by
    have hmul : i * v ≤ 10 * 3 := Nat.mul_le_mul (by omega) hv3
    rw [MAX_JOB_PRIORITY]
    omega
  have hv : (v : Int) < MAX_JOB_PRIORITY := by
    rw [MAX_JOB_PRIORITY]
    omega
  have hr := h.rise_eq (by omega) (by omega) hv i 2 hk
  have hc := h.cycle_eq (by omega) (by omega) hv
  -- `i` periods hold `4 * i + r` calls; the first four times `i` are cycles, and the call after them counts to 3
  obtain ⟨r', rfl⟩ : ∃ r', r = r' + 1 := ⟨r - 1, by omega⟩
  rw [ht] at hr hc
  rw [Nat.mul_div_cancel_left _ (by omega), Nat.mul_comm 4 i, rise_add, rise_cycles, hc, rise_succ] at hr
  have hpart : part v 4 (2 + 1 + i * 4) = 3 * v / 4 := by
    rw [part]
    congr 2
    omega
  omega

def Quartered (t : Nat) : Prop := t = 20 ∨ t = 24 ∨ t = 28 ∨ t = 32 ∨ t = 36

/-- Above five minutes only four whole intervals, and a value of two or three, add up. -/
theorem Ages.quartered (hv : 0 < v) (hvmax : (v : Int) < MAX_JOB_PRIORITY) (ht : 6 ≤ t)
    (h : Ages v t (setJobPriUpdIntvl v t (-1))) : (v = 2 ∨ v = 3) ∧ Quartered t := by
  obtain ⟨d, i, hi, hd, hs⟩ : ∃ d i : Nat, setJobPriUpdIntvl v t (-1) = i ∧ 1 ≤ d ∧
      ((t < 10 ∧ i = 5) ∨ (10 ≤ t ∧ t < 20 ∧ i = t / 2) ∨ (20 ≤ t ∧ t < 40 ∧ i = t / 4) ∨
        (40 ≤ t ∧ 8 ≤ d ∧ i = t / d ∧ 5 ≤ i)) := by
    rcases setJobPriUpdIntvl_long (v := v) (t := t) (i := -1) (by omega) (by omega) (by decide) with
      ⟨h, he⟩ | ⟨h, h', he⟩ | ⟨h, h', he⟩ | ⟨h, h', he⟩ | ⟨h, he⟩
    · exact ⟨1, 5, by rw [he]; rfl, le_rfl, by omega⟩
    · exact ⟨1, t / 2, by rw [he]; push_cast; rfl, le_rfl, by omega⟩
    · exact ⟨1, t / 4, by rw [he]; push_cast; rfl, le_rfl, by omega⟩
    · exact ⟨8, t / 8, by rw [he]; push_cast; rfl, by decide, by omega⟩
    · exact ⟨16, t / 16, by rw [he]; push_cast; rfl, by decide, by omega⟩
  rw [hi] at h
  rcases hs with ⟨h10, rfl⟩ | ⟨h10, h20, rfl⟩ | ⟨h20, h40, rfl⟩ | ⟨h40, hd8, rfl, h5⟩
  · have ht : t / 5 = 1 := by omega
    have hc := h.cycle_eq (by omega) (by omega) hvmax
    rw [ht, cycle_one] at hc
    omega
  · have ht : t / (t / 2) = 2 := Nat.div_eq_of_lt_le (by omega) (by omega)
    have hc := h.cycle_eq (by omega) (by omega) hvmax
    rw [ht, cycle_two] at hc
    omega
  · have ht : t / (t / 4) = 4 := Nat.div_eq_of_lt_le (by omega) (by omega)
    have hc := h.cycle_eq (by omega) (by omega) hvmax
    rw [ht, cycle_four] at hc
    refine ⟨by omega, ?_⟩
    by_contra hr
    rw [Quartered] at hr
    have hs : t = 4 * (t / 4) + t % 4 := by omega
    have hdri : Ages v (4 * (t / 4) + t % 4 : Nat) (t / 4 : Nat) := by rwa [← hs]
    exact Ages.drift (by omega) (by omega) (by omega) (by omega) (by omega) hdri
  · have hge : 8 ≤ t / (t / d) := (Nat.le_div_iff_mul_le (by omega)).mpr
      (le_trans (Nat.mul_le_mul_right _ hd8) (Nat.mul_div_le t d))
    have hne : t ≠ t / d := by
      have hle : t / d ≤ t / 8 := Nat.div_le_div_left hd8 (by decide)
      omega
    exact absurd (h.cycle_eq hne (by omega) hvmax) (cycle_ne v _ hv hge)

theorem Ages.of_quartered (hv : v = 2 ∨ v = 3) (ht : Quartered t) : Ages v t (setJobPriUpdIntvl v t (-1)) := by
  obtain ⟨i, hi, rfl⟩ : ∃ i, 5 ≤ i ∧ t = 4 * i := by
    rcases ht with rfl | rfl | rfl | rfl | rfl
    exacts [⟨5, by decide⟩, ⟨6, by decide⟩, ⟨7, by decide⟩, ⟨8, by decide⟩, ⟨9, by decide⟩]
  have hi : setJobPriUpdIntvl v (4 * i : Nat) (-1) = i := by
    rcases setJobPriUpdIntvl_long (v := v) (t := (4 * i : Nat)) (i := -1) (by omega) (by omega) (by decide) with
      h | h | h | h | h <;> rw [Quartered] at ht <;> omega
  rw [hi]
  rcases hv with rfl | rfl
  · exact Ages.of_cycle (by omega) (by decide) (by decide) (by decide) (by rw [cycle_four])
  · exact Ages.of_cycle (by omega) (by decide) (by decide) (by decide) (by rw [cycle_four])

end

/-- The age formula gives `v` points a period, while the sum fits an `unsigned int`. -/
theorem modifyJobPriority_periods (hv : 0 < v) (ht : 0 < t) (htmax : t < 2 ^ 31) (k : Nat)
    (subTime sub : Int) (hs : 0 ≤ sub) (hfit : sub + k * v < 2 ^ 32) :
    modifyJobPriority v t (subTime + 60 * (k * t)) subTime sub = min MAX_JOB_PRIORITY (sub + k * v) := by
  have hmin : (subTime + 60 * (k * t) - subTime) / 60 = k * t := by omega
  have hkv : 0 ≤ (k : Int) * v := Int.mul_nonneg (Int.natCast_nonneg k) hv.le
  have hprod : k * t * v % 2 ^ 64 = k * v * t := by
    rw [Int.mul_right_comm]
    refine Int.emod_eq_of_lt (Int.mul_nonneg hkv ht.le) ?_
    nlinarith
  simp only [modifyJobPriority, hmin, hprod]
  rw [if_neg (by omega), Int.mul_ediv_cancel _ (by omega), Int.emod_eq_of_lt (by omega) hfit, min_comm]

/-- The priorities grow as configured iff a period is one interval, or four and the value 2 or 3. -/
theorem ages_iff {v t : Int} (hv : 0 < v) (hvmax : v < MAX_JOB_PRIORITY) (ht : 0 < t) (htmax : t < MAX_JOB_PRIORITY) :
    (Ages v t (setJobPriUpdIntvl v t (-1)) ↔
      t ≤ 5 ∨ (v = 2 ∨ v = 3) ∧ (t = 20 ∨ t = 24 ∨ t = 28 ∨ t = 32 ∨ t = 36)) ∧
    ∀ (k : Nat) (subTime sub : Int), 0 ≤ sub → sub + k * v < 2 ^ 32 →
      modifyJobPriority v t (subTime + 60 * (k * t)) subTime sub = min MAX_JOB_PRIORITY (sub + k * v) := by
  refine ⟨?_, modifyJobPriority_periods hv ht (by rw [MAX_JOB_PRIORITY] at htmax; omega)⟩
  rcases le_or_gt t 5 with h5 | h5
  · rw [setJobPriUpdIntvl_short hv ht h5]
    exact iff_of_true (Ages.of_whole hv hvmax ht) (.inl h5)
  · lift v to Nat using hv.le
    lift t to Nat using ht.le
    constructor
    · intro h
      obtain ⟨hv', ht'⟩ := h.quartered (by omega) hvmax (by omega)
      rw [Quartered] at ht'
      omega
    · rintro (h | ⟨hv', ht'⟩)
      · omega
      · exact Ages.of_quartered (by omega) (by rw [Quartered]; omega)

theorem ages_iff_three_24 : Ages 3 24 (setJobPriUpdIntvl 3 24 (-1)) :=
  (ages_iff (by decide) (by decide) (by decide) (by decide)).1.mpr (.inr ⟨.inr rfl, .inr (.inl rfl)⟩)

/-- One point every ten minutes: the two calls of a period add nothing. -/
theorem updates_one_ten : setJobPriUpdIntvl 1 10 (-1) = 5 ∧
    (updates 1 10 5 [[0], [0]] { jobPriority := fun _ => 50 }).map (fun s => s.jobPriority 0) = some 50 ∧
    modifyJobPriority 1 10 600 0 50 = 51 := by
  decide

end OpenLava.Ageing

import OpenLava.Mbd.Daemon
import Mathlib.Algebra.Order.Round
import Mathlib.Data.Rat.Floor

/-!
# The slots that a user's limits leave

`ckPerHULimits` says how many more slots of a host a user may take, and `updUserData` keeps in `numSlots` what the job
limits of the user and of the groups leave. Both read a local variable that is not set on every path.
-/

namespace OpenLava.UserLimits

open Function List

open Ledger (updateEach)

def INFINIT_INT : Int := 0x7fffffff

def PEND_USER_PROC_JLIMIT : Nat := 1308
def PEND_HOST_USR_JLIMIT : Nat := 1309
def PEND_UGRP_PROC_JLIMIT : Nat := 1324

/-- What `ckPerHULimits` returns, and what it writes to its arguments. -/
structure Verdict where
  (numSlots numAvailSlots : Int)
  reason : Option Nat := none
  deriving DecidableEq, Repr

/-- The slots a limit leaves, `numNonPrmptSlots` with `numAvailSUSP`, up to `num`. -/
def available (limit : Int) (numAvailSUSP : Int) (acct : Option Acct) : Int :=
  let taken := fun acct : Acct => acct .numRUN + acct .numRESERVE
  let suspended := fun acct : Acct => acct .numSSUSP + acct .numUSUSP
  let numNonPrmptSlots := match acct with
    | some acct => limit - (taken acct + suspended acct)
    | none => limit
  let num := match acct with
    | some acct => limit - taken acct
    | none => limit
  max 0 (min (max 0 numNonPrmptSlots + numAvailSUSP) num)

/-- `(int) ceil(pJobLimit * numCPUs)` -/
def pJobLimit (limit : Rat) (hp : HData) : Int := ⌈limit * hp.numCPUs⌉

def ckHostUser (hp : HData) (u : URef) (numAvailSUSP : Int) : Except Verdict Verdict :=
  match hp.uJobLimit with
  | none => .ok ⟨INFINIT_INT, INFINIT_INT, none⟩
  | some limit =>
    let numAvailSlots := available limit numAvailSUSP (hp.uAcct u)
    if numAvailSlots ≤ 0 then .error ⟨0, numAvailSlots, some PEND_HOST_USR_JLIMIT⟩
    else .ok ⟨numAvailSlots, numAvailSlots, none⟩

def ckPerProc (h : HRef) (hp : HData) (up : UData) (numAvailSUSP : Int) (reason : Nat) (v : Verdict) :
    Except Verdict Verdict :=
  match up.pJobLimit with
  | none => .ok ⟨min v.numSlots INFINIT_INT, min v.numAvailSlots INFINIT_INT, none⟩
  | some limit =>
    let numAvailSlots1 := available (pJobLimit limit hp) numAvailSUSP (up.hAcct h)
    if numAvailSlots1 ≤ 0 then .error ⟨0, 0, some reason⟩
    else .ok ⟨min v.numSlots numAvailSlots1, min v.numAvailSlots numAvailSlots1, none⟩

/-- The loop over the user's groups, where `numAvailSUSP` is zero. -/
def ckGroups (h : HRef) (hp : HData) (users : URef → UData) : List URef → Verdict → Except Verdict Verdict
  | [], v => .ok v
  | g :: gPtr, v =>
    if (users g).pJobLimit.isNone then ckGroups h hp users gPtr v
    else (ckPerProc h hp (users g) 0 PEND_UGRP_PROC_JLIMIT v).bind (ckGroups h hp users gPtr)

def hULimitChecks (h : HRef) (u : URef) (numAvailSUSP : Int) (s : Mbd) : Except Verdict Verdict := do
  let v ← ckHostUser (s.hosts h) u numAvailSUSP
  let v ← ckPerProc h (s.hosts h) (s.users u) numAvailSUSP PEND_USER_PROC_JLIMIT v
  ckGroups h (s.hosts h) s.users (s.users u).gPtr v

/-- `numAvailSUSP` after the first test: unset where a limit is finite. -/
def firstNumAvailSUSP (h : HRef) (u : URef) (leftover : Int) (s : Mbd) : Int :=
  if (s.hosts h).uJobLimit.isSome ∨ (s.users u).pJobLimit.isSome ∨ (s.users u).pJobLimit.isSome then leftover else 0

def ckPerHULimits (h : HRef) (u : URef) (leftover : Int) (s : Mbd) : Verdict :=
  match hULimitChecks h u (firstNumAvailSUSP h u leftover s) s with
  | .ok v => v
  | .error v => v

structure Limit where
  limit : Int
  acct : Option Acct

def Limit.used (l : Limit) : Int :=
  match l.acct with
  | some acct => acct .numRUN + acct .numRESERVE + acct .numSSUSP + acct .numUSUSP
  | none => 0

def Limit.room (l : Limit) : Int := max 0 (l.limit - l.used)

def hostLimit (h : HRef) (u : URef) (s : Mbd) : Option Limit :=
  (s.hosts h).uJobLimit.map fun limit => ⟨limit, (s.hosts h).uAcct u⟩

def procLimit (h : HRef) (s : Mbd) (u : URef) : Option Limit :=
  (s.users u).pJobLimit.map fun limit => ⟨pJobLimit limit (s.hosts h), (s.users u).hAcct h⟩

def ownLimits (h : HRef) (u : URef) (s : Mbd) : List Limit := (hostLimit h u s).toList ++ (procLimit h s u).toList

def groupLimits (h : HRef) (u : URef) (s : Mbd) : List Limit := (s.users u).gPtr.filterMap (procLimit h s)

/-- The least number; without any limit `INFINIT_INT`. -/
def least (slots : List Int) : Int := slots.foldl min INFINIT_INT

section

variable {slots : List Int}

theorem least_append (slots : List Int) (x : Int) : least (slots ++ [x]) = min (least slots) x := by
  rw [least, foldl_append, least]
  rfl

theorem least_le_infinit (slots : List Int) : least slots ≤ INFINIT_INT := by
  induction slots using List.reverseRecOn with
  | nil => exact le_rfl
  | append_singleton slots x ih =>
    rw [least_append]
    exact (min_le_left _ _).trans ih

theorem least_le (h : x ∈ slots) : least slots ≤ x := by
  induction slots using List.reverseRecOn with
  | nil => cases h
  | append_singleton slots y ih =>
    rw [least_append]
    rcases mem_append.mp h with h | h
    · exact (min_le_left _ _).trans (ih h)
    · rw [mem_singleton.mp h]
      exact min_le_right _ _

theorem least_mem (slots : List Int) : least slots = INFINIT_INT ∨ least slots ∈ slots := by
  induction slots using List.reverseRecOn with
  | nil => exact .inl rfl
  | append_singleton slots y ih =>
    rw [least_append]
    rcases min_choice (least slots) y with h | h <;> rw [h]
    · exact ih.imp_right fun h => mem_append_left [y] h
    · exact .inr (mem_append_right slots (mem_singleton_self y))

theorem least_eq_zero (hpos : ∀ x ∈ slots, 0 ≤ x) : least slots = 0 ↔ 0 ∈ slots := by
  constructor
  · intro h
    rcases least_mem slots with h' | h' <;> rw [h] at h'
    · cases h'
    · exact h'
  · intro h
    refine le_antisymm (least_le h) ?_
    rcases least_mem slots with h' | h'
    · rw [h']
      decide
    · exact hpos _ h'

end

/-- The slots of a limit as `ckPerHULimits` computes them. -/
def Limit.available (numAvailSUSP : Int) (l : Limit) : Int := UserLimits.available l.limit numAvailSUSP l.acct

def Limit.num (l : Limit) : Int :=
  match l.acct with
  | some acct => l.limit - (acct .numRUN + acct .numRESERVE)
  | none => l.limit

/-- The limit is an `int`, and no count is negative. -/
structure Limit.Counted (l : Limit) : Prop where
  limit_le : l.limit ≤ INFINIT_INT
  acct_nonneg : ∀ acct ∈ l.acct, ∀ field, 0 ≤ acct field

section

variable {l : Limit}

theorem Limit.available_eq (g : Int) (l : Limit) : l.available g = max 0 (min (l.room + g) l.num) := by
  obtain ⟨limit, _ | acct⟩ := l
  · simp [Limit.available, UserLimits.available, Limit.room, Limit.used, Limit.num]
  · simp only [Limit.available, UserLimits.available, Limit.room, Limit.used, Limit.num]
    congr 4
    ring

theorem Limit.available_nonneg (g : Int) (l : Limit) : 0 ≤ l.available g := by
  exact le_max_left _ _

theorem Limit.room_le (h : l.Counted) : l.room ≤ max 0 l.num := by
  obtain ⟨limit, _ | acct⟩ := l
  · simp [Limit.room, Limit.used, Limit.num]
  · have ha := h.acct_nonneg acct rfl
    have hs := ha .numSSUSP
    have hu := ha .numUSUSP
    simp only [Limit.room, Limit.used, Limit.num]
    omega

theorem Limit.num_le (h : l.Counted) : l.num ≤ INFINIT_INT := by
  obtain ⟨limit, _ | acct⟩ := l
  · exact h.limit_le
  · have ha := h.acct_nonneg acct rfl
    have hr := ha .numRUN
    have hv := ha .numRESERVE
    have hle : limit ≤ INFINIT_INT := h.limit_le
    simp only [Limit.num]
    omega

theorem Limit.available_le (g : Int) (h : l.Counted) : l.available g ≤ INFINIT_INT := by
  have hle := l.num_le h
  exact max_le (by decide) ((min_le_right _ _).trans hle)

theorem Limit.available_zero (h : l.Counted) : l.available 0 = l.room := by
  have hle := l.room_le h
  have hpos : 0 ≤ l.room := le_max_left _ _
  rw [Limit.available_eq]
  omega

end

section

variable {h : HRef} {u : URef} {s : Mbd} {g : Int}

/-- A check has found the least number, or stopped at zero. -/
def Finds (slots : List Int) : Except Verdict Verdict → Prop
  | .ok v => v.numSlots = least slots
  | .error v => v.numSlots = 0 ∧ 0 ∈ slots

theorem Finds.bind (h : Finds known r)
    (hf : ∀ v, v.numSlots = least known → Finds (known ++ more) (f v)) : Finds (known ++ more) (r.bind f) := by
  cases r with
  | ok v => exact hf v h
  | error v => exact ⟨h.1, mem_append_left more h.2⟩

theorem ckHostUser_finds (h : HRef) (u : URef) (s : Mbd) (g : Int) (hl : ∀ l ∈ hostLimit h u s, l.Counted) :
    Finds ((hostLimit h u s).toList.map (Limit.available g)) (ckHostUser (s.hosts h) u g) := by
  rw [hostLimit] at hl
  rw [ckHostUser, hostLimit]
  cases hlim : (s.hosts h).uJobLimit with
  | none => rfl
  | some limit =>
    have hle : available limit g ((s.hosts h).uAcct u) ≤ INFINIT_INT :=
      Limit.available_le (l := ⟨limit, (s.hosts h).uAcct u⟩) g (hl _ (by rw [hlim]; rfl))
    have hpos : 0 ≤ available limit g ((s.hosts h).uAcct u) := Limit.available_nonneg g ⟨limit, (s.hosts h).uAcct u⟩
    simp only [Option.map_some, Option.toList_some, map_cons, map_nil, Limit.available]
    split
    · exact ⟨rfl, by rw [mem_singleton]; omega⟩
    · exact (min_eq_right hle).symm

theorem ckPerProc_finds (h : HRef) (s : Mbd) (u : URef) (g : Int) (reason : Nat) (v : Verdict)
    (hv : v.numSlots = least known) :
    Finds (known ++ (procLimit h s u).toList.map (Limit.available g)) (ckPerProc h (s.hosts h) (s.users u) g reason v) := by
  rw [ckPerProc, procLimit]
  cases (s.users u).pJobLimit with
  | none =>
    have hmin : min v.numSlots INFINIT_INT = least known := by
      rw [hv]
      exact min_eq_left (least_le_infinit known)
    simpa [Finds] using hmin
  | some limit =>
    have hpos : 0 ≤ available (pJobLimit limit (s.hosts h)) g ((s.users u).hAcct h) :=
      Limit.available_nonneg g ⟨pJobLimit limit (s.hosts h), (s.users u).hAcct h⟩
    simp only [Option.map_some, Option.toList_some, map_cons, map_nil, Limit.available]
    split
    · exact ⟨rfl, mem_append_right known (by rw [mem_singleton]; omega)⟩
    · rw [Finds, least_append, hv]

theorem ckGroups_finds (h : HRef) (s : Mbd) (gPtr : List URef) (v : Verdict) (hv : v.numSlots = least known) :
    Finds (known ++ (gPtr.filterMap (procLimit h s)).map (Limit.available 0)) (ckGroups h (s.hosts h) s.users gPtr v) := by
  induction gPtr generalizing known v with
  | nil =>
    rw [filterMap_nil, map_nil, append_nil]
    exact hv
  | cons g gPtr ih =>
    rw [ckGroups]
    split
    · next hn =>
      have hs : procLimit h s g = none := by
        rw [procLimit, Option.isNone_iff_eq_none.mp hn]
        rfl
      rw [filterMap_cons_none hs]
      exact ih v hv
    · have hg := ckPerProc_finds h s g 0 PEND_UGRP_PROC_JLIMIT v hv
      have hs : known ++ ((g :: gPtr).filterMap (procLimit h s)).map (Limit.available 0) =
          known ++ (procLimit h s g).toList.map (Limit.available 0) ++
            (gPtr.filterMap (procLimit h s)).map (Limit.available 0) := by
        rw [filterMap_cons]
        cases procLimit h s g <;> simp
      rw [hs]
      exact hg.bind fun v hv => ih v hv

/-- The numbers compared, where `g` is read for the limits of the user. -/
def slots (h : HRef) (u : URef) (g : Int) (s : Mbd) : List Int :=
  (ownLimits h u s).map (Limit.available g) ++ (groupLimits h u s).map (Limit.available 0)

theorem hULimitChecks_finds (h : HRef) (u : URef) (g : Int) (s : Mbd) (hl : ∀ l ∈ hostLimit h u s, l.Counted) :
    Finds (slots h u g s) (hULimitChecks h u g s) := by
  have ho : Finds ((ownLimits h u s).map (Limit.available g)) ((ckHostUser (s.hosts h) u g).bind
      (ckPerProc h (s.hosts h) (s.users u) g PEND_USER_PROC_JLIMIT)) := by
    rw [ownLimits, map_append]
    exact (ckHostUser_finds h u s g hl).bind fun v hv => ckPerProc_finds h s u g PEND_USER_PROC_JLIMIT v hv
  have hall : Finds (slots h u g s) _ := ho.bind fun v hv => ckGroups_finds h s (s.users u).gPtr v hv
  have ha : ((ckHostUser (s.hosts h) u g).bind (ckPerProc h (s.hosts h) (s.users u) g PEND_USER_PROC_JLIMIT)).bind
      (ckGroups h (s.hosts h) s.users (s.users u).gPtr) = hULimitChecks h u g s := by
    rw [hULimitChecks]
    cases ckHostUser (s.hosts h) u g <;> rfl
  rwa [ha] at hall

theorem slots_nonneg (hx : x ∈ slots h u g s) : 0 ≤ x := by
  rcases mem_append.mp hx with hx | hx <;> obtain ⟨l, -, rfl⟩ := mem_map.mp hx <;>
    exact Limit.available_nonneg _ l

theorem ckPerHULimits_least (leftover : Int) (hl : ∀ l ∈ hostLimit h u s, l.Counted) :
    (ckPerHULimits h u leftover s).numSlots = least (slots h u (firstNumAvailSUSP h u leftover s) s) := by
  have hf := hULimitChecks_finds h u (firstNumAvailSUSP h u leftover s) s hl
  rw [ckPerHULimits]
  cases hc : hULimitChecks h u (firstNumAvailSUSP h u leftover s) s with
  | ok v =>
    rw [hc] at hf
    exact hf
  | error v =>
    rw [hc] at hf
    exact hf.1.trans ((least_eq_zero fun x hx => slots_nonneg hx).mpr hf.2).symm

def leastRoom (h : HRef) (u : URef) (s : Mbd) : Int := least ((ownLimits h u s ++ groupLimits h u s).map Limit.room)

/-- A limit of the user is reached by running and reserved slots alone, or one of a group is. -/
def Exhausted (h : HRef) (u : URef) (s : Mbd) : Prop :=
  (∃ l ∈ ownLimits h u s, l.num ≤ 0) ∨ ∃ l ∈ groupLimits h u s, l.room = 0

theorem firstNumAvailSUSP_of_own (leftover : Int) (h' : ownLimits h u s ≠ []) :
    firstNumAvailSUSP h u leftover s = leftover := by
  rw [firstNumAvailSUSP, if_pos]
  by_contra hn
  simp only [not_or, Bool.not_eq_true, Option.isSome_eq_false_iff, Option.isNone_iff_eq_none] at hn
  exact h' (by simp [ownLimits, hostLimit, procLimit, hn.1, hn.2.1])

theorem ownLimits_eq_nil : ownLimits h u s = [] ↔ (s.hosts h).uJobLimit = none ∧ (s.users u).pJobLimit = none := by
  simp [ownLimits, hostLimit, procLimit]

section

variable (hcount : ∀ l ∈ ownLimits h u s ++ groupLimits h u s, l.Counted)

include hcount

theorem slots_zero : slots h u 0 s = (ownLimits h u s ++ groupLimits h u s).map Limit.room := by
  rw [slots, ← map_append]
  exact map_congr_left fun l hl => Limit.available_zero (hcount l hl)

theorem Exhausted.zero_mem (hex : Exhausted h u s) (g : Int) : 0 ∈ slots h u g s := by
  rcases hex with ⟨l, hl, hn⟩ | ⟨l, hl, hr⟩
  · have hz : l.available g = 0 := by
      rw [Limit.available_eq]
      omega
    exact mem_append_left _ (mem_map.mpr ⟨l, hl, hz⟩)
  · have hz : l.available 0 = 0 := by
      rw [Limit.available_zero (hcount l (mem_append_right _ hl)), hr]
    exact mem_append_right _ (mem_map.mpr ⟨l, hl, hz⟩)

theorem Exhausted.of_zero (hz : ∀ g, 0 ∈ slots h u g s) : Exhausted h u s := by
  rcases mem_append.mp (hz INFINIT_INT) with hx | hx <;> obtain ⟨l, hl, hx⟩ := mem_map.mp hx
  · refine .inl ⟨l, hl, ?_⟩
    have hle := Limit.num_le (hcount l (mem_append_left _ hl))
    have hpos : 0 ≤ l.room := le_max_left _ _
    rw [Limit.available_eq] at hx
    omega
  · rw [Limit.available_zero (hcount l (mem_append_right _ hl))] at hx
    exact .inr ⟨l, hl, hx⟩

/-- `ckPerHULimits` returns the least room left iff no limit is the user's, or none is left. -/
theorem ckPerHULimits_leastRoom : (ckPerHULimits h u 0 s).numSlots = leastRoom h u s ∧
    ((∀ leftover, (ckPerHULimits h u leftover s).numSlots = leastRoom h u s) ↔
      ((s.hosts h).uJobLimit = none ∧ (s.users u).pJobLimit = none) ∨ Exhausted h u s) := by
  have hlea : ∀ leftover, (ckPerHULimits h u leftover s).numSlots =
      least (slots h u (firstNumAvailSUSP h u leftover s) s) := fun leftover =>
    ckPerHULimits_least leftover fun l hl => hcount l
      (mem_append_left _ (mem_append_left _ (Option.mem_toList.mpr hl)))
  have hr : leastRoom h u s = least (slots h u 0 s) := by rw [leastRoom, slots_zero hcount]
  have hf : firstNumAvailSUSP h u 0 s = 0 := by
    rw [firstNumAvailSUSP]
    split <;> rfl
  refine ⟨by rw [hlea, hf, hr], ?_⟩
  rw [← ownLimits_eq_nil]
  constructor
  · intro ha
    by_cases ho : ownLimits h u s = []
    · exact .inl ho
    · refine .inr (Exhausted.of_zero hcount ?_)
      have hs : ∀ g, least (slots h u g s) = leastRoom h u s := fun g => by
        rw [← ha g, hlea, firstNumAvailSUSP_of_own g ho]
      -- with enough suspended slots missing, the first limit leaves nothing
      obtain ⟨l, hl⟩ := exists_mem_of_ne_nil _ ho
      have hz : l.available (-l.room) = 0 := by
        rw [Limit.available_eq]
        omega
      have hn : leastRoom h u s = 0 := by
        rw [← hs (-l.room)]
        exact (least_eq_zero fun x hx => slots_nonneg hx).mpr
          (mem_append_left _ (mem_map.mpr ⟨l, hl, hz⟩))
      intro g
      rw [← least_eq_zero fun x hx => slots_nonneg hx, hs, hn]
  · rintro (ho | hex) leftover
    · have hs : slots h u (firstNumAvailSUSP h u leftover s) s = slots h u 0 s := by
        rw [slots, slots, ho]
        rfl
      rw [hlea, hs, hr]
    · rw [hlea, hr, (least_eq_zero fun x hx => slots_nonneg hx).mpr (hex.zero_mem hcount _),
        (least_eq_zero fun x hx => slots_nonneg hx).mpr (hex.zero_mem hcount 0)]

end

end

def threePerUser : Mbd :=
  { Mbd.blank with
    hosts := fun h => { Mbd.blank.hosts h with uJobLimit := some 3, uAcct := fun _ => some fun
      | .numRUN => 1
      | .numSSUSP => 1
      | _ => 0 } }

theorem threePerUser_counted : ∀ l ∈ ownLimits 0 0 threePerUser ++ groupLimits 0 0 threePerUser, l.Counted := by
  intro l hl
  obtain rfl : l = ⟨3, (threePerUser.hosts 0).uAcct 0⟩ := by
    simpa [ownLimits, groupLimits, hostLimit, procLimit, threePerUser, Mbd.blank] using hl
  refine ⟨by decide, ?_⟩
  rintro acct ha field
  obtain rfl := Option.some.inj ha
  cases field <;> decide

theorem ckPerHULimits_threePerUser : (ckPerHULimits 0 0 0 threePerUser).numSlots = leastRoom 0 0 threePerUser :=
  (ckPerHULimits_leastRoom threePerUser_counted).1

/-- One slot is left, but the function returns two or none by what was in the variable. -/
theorem ckPerHULimits_leftover : leastRoom 0 0 threePerUser = 1 ∧ (ckPerHULimits 0 0 5 threePerUser).numSlots = 2 ∧
    (ckPerHULimits 0 0 (-1) threePerUser).numSlots = 0 := by
  decide

/-- The daemon with `maxJobs` and `numSlots` of the users and groups. -/
structure Users where
  mbd : Mbd
  maxJobs : URef → Option Int := fun _ => none
  numSlots : URef → Int
  maxJobs_le : ∀ u, ∀ max ∈ maxJobs u, max ≤ INFINIT_INT := by simp

/-- `maxJobs` less the started and reserved slots that are counted. -/
def slotsLeft (maxJobs : Option Int) (up : UData) : Int :=
  match maxJobs with
  | none => INFINIT_INT
  | some max => max - up.count .numRUN - up.count .numSSUSP - up.count .numUSUSP - up.count .numRESERVE

def newJob (d : Tally) : Prop := d .numRUN = 0 ∧ d .numSSUSP = 0 ∧ d .numUSUSP = 0 ∧ d .numRESERVE = 0
  deriving Decidable

/-- The loop of `updUserData` over the groups, with `numSlots`. -/
def updGroups (maxJobs : URef → Option Int) (remote : HRef → Bool) (jp : JData) (d : Tally) :
    List URef → (URef → UData) → Int → (URef → UData) × Int
  | [], users, numSlots => (users, numSlots)
  | g :: gPtr, users, numSlots =>
    let users := update users g (updUserData1 remote jp d (users g))
    let numSlots := if newJob d then numSlots else min (slotsLeft (maxJobs g) (users g)) numSlots
    updGroups maxJobs remote jp d gPtr users numSlots

/-- `updUserData` with `numSlots`, which holds `uninit` if it is never set. -/
def Users.updUserData (jp : JData) (d : Tally) (uninit : Int) (x : Users) : Users :=
  let remote := fun h => (x.mbd.hosts h).remote
  let users := update x.mbd.users jp.uPtr (updUserData1 remote jp d (x.mbd.users jp.uPtr))
  let numSlots := if newJob d then uninit else slotsLeft (x.maxJobs jp.uPtr) (users jp.uPtr)
  let (users, numSlots) := updGroups x.maxJobs remote jp d (users jp.uPtr).gPtr users numSlots
  { x with mbd := { x.mbd with users }, numSlots := update x.numSlots jp.uPtr numSlots }

section

variable {maxJobs : URef → Option Int}

theorem updGroups_users (gPtr : List URef) (users : URef → UData) (numSlots : Int) :
    (updGroups maxJobs remote jp d gPtr users numSlots).1 =
      updateEach (fun _ => updUserData1 remote jp d) gPtr users := by
  induction gPtr generalizing users numSlots with
  | nil => rfl
  | cons g gPtr ih => exact ih _ _

theorem updGroups_newJob (hn : newJob d) (gPtr : List URef) (users : URef → UData) (numSlots : Int) :
    (updGroups maxJobs remote jp d gPtr users numSlots).2 = numSlots := by
  induction gPtr generalizing users numSlots with
  | nil => rfl
  | cons g gPtr ih => rw [updGroups, ih, if_pos hn]

def limited (maxJobs : URef → Option Int) (users : URef → UData) (u : URef) : Option Int :=
  (maxJobs u).map fun max => slotsLeft (some max) (users u)

theorem filterMap_cons_toList (f : URef → Option Int) (g : URef) (gPtr : List URef) :
    (g :: gPtr).filterMap f = (f g).toList ++ gPtr.filterMap f := by
  rw [filterMap_cons]
  cases f g <;> rfl

theorem min_slotsLeft (users : URef → UData) (u : URef) (hn : n ≤ INFINIT_INT) :
    min (slotsLeft (maxJobs u) (users u)) n = (limited maxJobs users u).toList.foldl min n := by
  rw [limited]
  cases maxJobs u with
  | none => exact min_eq_right hn
  | some max => exact min_comm _ _

/-- The loop finds the least number, where every group is visited once. -/
theorem updGroups_numSlots (hold : ¬ newJob d) (gPtr : List URef) (hset : gPtr.Nodup) (users : URef → UData) (numSlots : Int)
    (hn : numSlots ≤ INFINIT_INT) : (updGroups maxJobs remote jp d gPtr users numSlots).2 =
      (gPtr.filterMap (limited maxJobs (updateEach (fun _ => updUserData1 remote jp d) gPtr users))).foldl min numSlots := by
  induction gPtr generalizing users numSlots with
  | nil => rfl
  | cons g gPtr ih =>
    obtain ⟨hg, hset⟩ := nodup_cons.mp hset
    rw [updGroups, if_neg hold, Ledger.updateEach_cons]
    generalize update users g (updUserData1 remote jp d (users g)) = users'
    have hlast : limited maxJobs (updateEach (fun _ => updUserData1 remote jp d) gPtr users') g =
        limited maxJobs users' g := by
      rw [limited, limited, Ledger.updateEach_apply_of_notMem _ _ _ _ hg]
    rw [ih hset _ _ ((min_le_right _ _).trans hn), min_slotsLeft users' g hn, filterMap_cons_toList, hlast,
      foldl_append]

end

section

variable {x : Users} {jp : JData} {d : Tally} {uninit : Int}

theorem Users.updUserData_mbd (jp : JData) (d : Tally) (uninit : Int) (x : Users) :
    (x.updUserData jp d uninit).mbd = OpenLava.updUserData jp d x.mbd := by
  simp only [Users.updUserData, OpenLava.updUserData, Ledger.updateEach_cons, update_self]
  rw [updGroups_users]
  rfl

theorem Users.updUserData_gPtr (jp : JData) (d : Tally) (uninit : Int) (x : Users) (u : URef) :
    ((x.updUserData jp d uninit).mbd.users u).gPtr = (x.mbd.users u).gPtr := by
  rw [Users.updUserData_mbd]
  exact Ledger.updateEach_field UData.gPtr (fun _ => updUserData1 (fun h => (x.mbd.hosts h).remote) jp d) (fun _ _ => rfl)
    _ _ u

/-- The least of the limits, each less the started and reserved slots counted there. -/
def Users.leastSlots (x : Users) (u : URef) : Int :=
  least ((u :: (x.mbd.users u).gPtr).filterMap (limited x.maxJobs x.mbd.users))

theorem Users.updUserData_newJob (hn : newJob d) : (x.updUserData jp d uninit).numSlots jp.uPtr = uninit := by
  simp only [Users.updUserData, update_self]
  rw [updGroups_newJob hn, if_pos hn]

theorem slotsLeft_least (x : Users) (u : URef) (remote : HRef → Bool) (users : URef → UData)
    (hu : users u = updUserData1 remote jp d (x.mbd.users u)) :
    slotsLeft (x.maxJobs u) (users u) = least (limited x.maxJobs users u).toList := by
  have hpos : ∀ c, 0 ≤ (users u).count c := fun c => by
    rw [hu]
    exact Ledger.clampAdd_nonneg _ _
  have hle := x.maxJobs_le u
  rw [limited]
  cases hmax : x.maxJobs u with
  | none => rfl
  | some max =>
    have h1 := hpos .numRUN
    have h2 := hpos .numSSUSP
    have h3 := hpos .numUSUSP
    have h4 := hpos .numRESERVE
    have hmax' : max ≤ INFINIT_INT := hle max (by rw [hmax]; rfl)
    refine (min_eq_right ?_).symm
    simp only [slotsLeft]
    omega

/-- An update of started or reserved slots leaves the least number in `numSlots`. -/
theorem Users.updUserData_numSlots (hold : ¬ newJob d) (hset : (jp.uPtr :: (x.mbd.users jp.uPtr).gPtr).Nodup) :
    (x.updUserData jp d uninit).numSlots jp.uPtr = (x.updUserData jp d uninit).leastSlots jp.uPtr := by
  obtain ⟨hu, hg⟩ := nodup_cons.mp hset
  have hgPtr := x.updUserData_gPtr jp d uninit jp.uPtr
  rw [Users.leastSlots, hgPtr, Users.updUserData_mbd]
  simp only [Users.updUserData, update_self, OpenLava.updUserData, Ledger.updateEach_cons, if_neg hold]
  generalize hr : (fun h => (x.mbd.hosts h).remote) = remote
  generalize huse : update x.mbd.users jp.uPtr (updUserData1 remote jp d (x.mbd.users jp.uPtr)) = users
  have ho : users jp.uPtr = updUserData1 remote jp d (x.mbd.users jp.uPtr) := by rw [← huse, update_self]
  have hkeep : limited x.maxJobs (updateEach (fun _ => updUserData1 remote jp d) (x.mbd.users jp.uPtr).gPtr users) jp.uPtr =
      limited x.maxJobs users jp.uPtr := by
    rw [limited, limited, Ledger.updateEach_apply_of_notMem _ _ _ _ hu]
  have hf := slotsLeft_least x jp.uPtr remote users ho
  rw [← ho, hf]
  have hs : (updUserData1 remote jp d (x.mbd.users jp.uPtr)).gPtr = (x.mbd.users jp.uPtr).gPtr := rfl
  rw [← ho] at hs
  rw [hs, updGroups_numSlots hold _ hg users _ (least_le_infinit _), filterMap_cons_toList, hkeep, least, least,
    foldl_append]

/-- A counter update, with what its call of `updUserData` finds in the variable. -/
structure Update where
  jp : JData
  d : Tally
  uninit : Int

def Update.apply (e : Update) (x : Users) : Users := x.updUserData e.jp e.d e.uninit

theorem run_gPtr (x : Users) (updates : List Update) (u : URef) :
    ((Run.run Update.apply updates x).mbd.users u).gPtr = (x.mbd.users u).gPtr :=
  Run.run_preserves (I := fun y => (y.mbd.users u).gPtr = (x.mbd.users u).gPtr)
    (fun e y hy => (y.updUserData_gPtr e.jp e.d e.uninit u).trans hy) updates x rfl

/-- An update of started or reserved slots leaves in `numSlots` what the limits leave. -/
theorem updUserData_numSlots_iff (x : Users) (updates : List Update) (e : Update)
    (hset : (e.jp.uPtr :: (x.mbd.users e.jp.uPtr).gPtr).Nodup) :
    (e.apply (Run.run Update.apply updates x)).numSlots e.jp.uPtr =
        (e.apply (Run.run Update.apply updates x)).leastSlots e.jp.uPtr ↔
      ¬ newJob e.d ∨ e.uninit = (e.apply (Run.run Update.apply updates x)).leastSlots e.jp.uPtr := by
  rw [← run_gPtr x updates] at hset
  generalize Run.run Update.apply updates x = y at hset ⊢
  by_cases hn : newJob e.d
  · rw [Update.apply, Users.updUserData_newJob hn]
    simp [hn]
  · exact iff_of_true (Users.updUserData_numSlots hn hset) (.inl hn)

end

def tenOfThree : Users where
  mbd := { threePerUser with users := fun u => { gPtr := if u = 0 then [1] else [] } }
  maxJobs u := if u = 0 then some 10 else some 3
  numSlots _ := 0
  maxJobs_le u max h := by
    split at h <;> obtain rfl := Option.some.inj h <;> decide

/-- A job of the user starts on two slots. -/
theorem numSlots_start : (Update.apply ⟨initJData 1 0 { queue := 0 }, tally 0 0 2 0 0 0, 0⟩ tenOfThree).numSlots 0 =
      (Update.apply ⟨initJData 1 0 { queue := 0 }, tally 0 0 2 0 0 0, 0⟩ tenOfThree).leastSlots 0 :=
  (updUserData_numSlots_iff tenOfThree [] ⟨initJData 1 0 { queue := 0 }, tally 0 0 2 0 0 0, 0⟩ (by decide)).mpr
    (.inl (by decide))

/-- A job is submitted: the limits leave three slots, but `numSlots` is what was in the variable. -/
theorem numSlots_submit : (Update.apply ⟨initJData 1 0 { queue := 0 }, tally 1 1 0 0 0 0, 0⟩ tenOfThree).numSlots 0 = 0 ∧
      (Update.apply ⟨initJData 1 0 { queue := 0 }, tally 1 1 0 0 0 0, 0⟩ tenOfThree).leastSlots 0 = 3 := by
  decide

end OpenLava.UserLimits

import Mathlib.Algebra.BigOperators.Group.Finset.Piecewise
import Mathlib.Algebra.Order.BigOperators.Group.Finset
import Mathlib.Tactic

/-!
# Ledgers kept by increments

A ledger holds one integer per account. Every live item owes each account some amount, and the ledger is balanced when
each account holds the sum of what the live items owe it. Programs add the difference whenever an item changes, and some
clamp the result at zero.
-/

namespace Ledger

open Function List Finset

variable {ι α : Type}

/-- What the live items together owe to account `a`. -/
def total (live : Finset ι) (owes : ι → α → Int) (a : α) : Int := ∑ i ∈ live, owes i a

def Balanced (live : Finset ι) (owes : ι → α → Int) (book : α → Int) : Prop :=
  ∀ a, book a = total live owes a

variable {i : ι}

@[simp] theorem total_empty (owes : ι → α → Int) (a : α) : total ∅ owes a = 0 := by
  simp [total]

theorem total_update [DecidableEq ι] (hi : i ∈ live) (new : α → Int) (a : α) :
    total live (update owes i new) a = total live owes a + (new a - owes i a) := by
  have hs : ∀ f : ι → α → Int, total live f a = f i a + ∑ j ∈ live.erase i, f j a :=
    fun f => (add_sum_erase live (fun j => f j a) hi).symm
  have hr : ∑ j ∈ live.erase i, update owes i new j a = ∑ j ∈ live.erase i, owes j a := by
    refine sum_congr rfl fun j hj => ?_
    rw [update_of_ne (ne_of_mem_erase hj)]
  rw [hs, hs, hr, update_self]
  omega

theorem total_insert [DecidableEq ι] (hi : i ∉ live) (a : α) :
    total (insert i live) owes a = owes i a + total live owes a := by
  simp [total, sum_insert hi]

theorem total_congr (h : ∀ j ∈ live, owes j a = owes' j a) : total live owes a = total live owes' a := sum_congr rfl h

theorem Balanced.congr (hb : Balanced live owes book)
    (h : ∀ j ∈ live, ∀ a, owes j a = owes' j a) : Balanced live owes' book :=
  fun a => (hb a).trans (total_congr fun j hj => h j hj a)

theorem Balanced.post [DecidableEq ι] (hb : Balanced live owes book) (hi : i ∈ live) (new : α → Int)
    (hp : ∀ a, book' a = book a + (new a - owes i a)) : Balanced live (update owes i new) book' := by
  intro a
  rw [hp a, hb a, total_update hi]

theorem Balanced.enter [DecidableEq ι] (hb : Balanced live owes book) (hi : i ∉ live) (new : α → Int)
    (hp : ∀ a, book' a = book a + new a) : Balanced (insert i live) (update owes i new) book' := by
  intro a
  have hr : total live (update owes i new) a = total live owes a := by
    refine total_congr fun j hj => ?_
    rw [update_of_ne]
    rintro rfl
    exact hi hj
  rw [hp a, hb a, total_insert hi, hr, update_self]
  omega

theorem Balanced.leave [DecidableEq ι] (hb : Balanced live owes book) (h0 : ∀ a, owes i a = 0) :
    Balanced (live.erase i) owes book := by
  intro a
  rw [hb a]
  by_cases hi : i ∈ live
  · have := add_sum_erase live (fun j => owes j a) hi
    simp only [total, ← this, h0 a, zero_add]
  · rw [erase_eq_of_notMem hi]

theorem Balanced.postEach [DecidableEq ι] (hb : Balanced live owes book) {P : Finset ι} (hP : P ⊆ live) (share : α → Int)
    {owes' : ι → α → Int} (hr : ∀ j ∈ live, j ∉ P → ∀ a, owes' j a = owes j a)
    (hin : ∀ j ∈ P, ∀ a, owes' j a = owes j a + share a) (hp : ∀ a, book' a = book a + P.card * share a) :
    Balanced live owes' book' := by
  intro a
  have hs : ∀ f : ι → α → Int, total live f a = ∑ j ∈ live \ P, f j a + ∑ j ∈ P, f j a :=
    fun f => (sum_sdiff hP).symm
  have ho : ∑ j ∈ live \ P, owes' j a = ∑ j ∈ live \ P, owes j a :=
    sum_congr rfl fun j hj => hr j (mem_sdiff.mp hj).1 (mem_sdiff.mp hj).2 a
  have he : ∑ j ∈ P, owes' j a = ∑ j ∈ P, owes j a + P.card * share a := by
    rw [sum_congr rfl fun j hj => hin j hj a, sum_add_distrib, sum_const, nsmul_eq_mul]
  rw [hp a, hb a, hs, hs, ho, he]
  ring

/-- What one item of a set owes for all of them may be spread over the set. -/
theorem Balanced.spread [DecidableEq ι] (hb : Balanced live owes book) (share : α → Int)
    (hP : P ⊆ live) (hi : i ∈ P) (hr : ∀ j ∈ live, j ∉ P → ∀ a, owes' j a = owes j a)
    (ha : ∀ a, owes i a = P.card * share a) (hz : ∀ j ∈ P, j ≠ i → ∀ a, owes j a = 0)
    (hsha : ∀ j ∈ P, ∀ a, owes' j a = share a) : Balanced live owes' book := by
  intro a
  have hs : ∀ f : ι → α → Int, total live f a = ∑ j ∈ live \ P, f j a + ∑ j ∈ P, f j a :=
    fun f => (sum_sdiff hP).symm
  have ho : ∑ j ∈ P, owes j a = owes i a := sum_eq_single i (fun j hj hne => hz j hj hne a) (absurd hi)
  have he : ∑ j ∈ P, owes' j a = P.card * share a := by
    rw [sum_congr rfl fun j hj => hsha j hj a, sum_const, nsmul_eq_mul]
  have hoth : ∑ j ∈ live \ P, owes' j a = ∑ j ∈ live \ P, owes j a :=
    sum_congr rfl fun j hj => hr j (mem_sdiff.mp hj).1 (mem_sdiff.mp hj).2 a
  rw [hb a, hs, hs, ho, he, hoth, ha]

theorem Balanced.le_book (hb : Balanced live owes book) (hi : i ∈ live)
    (hn : ∀ j ∈ live, 0 ≤ owes j a) : owes i a ≤ book a := by
  rw [hb a]
  exact single_le_sum (f := fun j => owes j a) hn hi

theorem Balanced.stays_nonneg (hb : Balanced live owes book) (hi : i ∈ live) (hn : ∀ j ∈ live, ∀ a, 0 ≤ owes j a)
    {new : α → Int} (hnew : ∀ a, 0 ≤ new a) (a : α) : 0 ≤ book a ∧ 0 ≤ book a + (new a - owes i a) := by
  have hle := hb.le_book (a := a) hi fun j hj => hn j hj a
  have := hn i hi a
  have := hnew a
  omega

def clampAdd (cur d : Int) : Int := if 0 ≤ cur + d then cur + d else 0

theorem clampAdd_of_nonneg (h : 0 ≤ cur + d) : clampAdd cur d = cur + d := if_pos h

@[simp] theorem clampAdd_nonneg (cur d : Int) : 0 ≤ clampAdd cur d := by
  unfold clampAdd
  split <;> omega

variable {K V : Type} [DecidableEq K]

/-- Change the entry of every key in a list, as often as the key occurs. -/
def updateEach (g : K → V → V) (l : List K) (t : K → V) : K → V :=
  l.foldl (fun t k => update t k (g k (t k))) t

theorem updateEach_cons (g : K → V → V) (k : K) (l : List K) (t : K → V) :
    updateEach g (k :: l) t = updateEach g l (update t k (g k (t k))) := rfl

theorem updateEach_apply (g : K → V → V) (l : List K) (t : K → V) (k : K) :
    updateEach g l t k = (g k)^[l.count k] (t k) := by
  induction l generalizing t with
  | nil => rfl
  | cons y l ih =>
    rw [updateEach_cons, ih]
    by_cases hy : y = k
    · subst hy
      rw [count_cons_self, iterate_succ_apply, update_self]
    · rw [count_cons_of_ne hy, update_of_ne (Ne.symm hy)]

theorem updateEach_apply_of_notMem (g : K → V → V) (l : List K) (t : K → V) (k : K) (h : k ∉ l) :
    updateEach g l t k = t k := by
  rw [updateEach_apply, count_eq_zero_of_not_mem h, iterate_zero_apply]

theorem updateEach_apply_of_nodup (g : K → V → V) (h : l.Nodup) (t : K → V) (k : K) :
    updateEach g l t k = if k ∈ l then g k (t k) else t k := by
  split_ifs with hk
  · rw [updateEach_apply, count_eq_one_of_mem h hk, iterate_one]
  · exact updateEach_apply_of_notMem g l t k hk

theorem updateEach_field (p : V → β) (g : K → V → V) (hg : ∀ k x, p (g k x) = p x)
    (l : List K) (t : K → V) (k : K) : p (updateEach g l t k) = p (t k) := by
  rw [updateEach_apply]
  induction l.count k generalizing t with
  | zero => rfl
  | succ n ih => rw [iterate_succ_apply', hg, ih]

/-- Adding `d` again and again stays off the clamp if the end values are not negative. -/
theorem iterate_add {v : V → κ → Int} {d : κ → Int} {P : V → Prop}
    (hg : ∀ x, P x → (∀ c, 0 ≤ v x c) → (∀ c, 0 ≤ v x c + d c) → P (g x) ∧ ∀ c, v (g x) c = v x c + d c)
    (n : Nat) (x : V) (hx : P x) (h0 : ∀ c, 0 ≤ v x c) (h1 : ∀ c, 0 ≤ v x c + n * d c) :
    P (g^[n] x) ∧ ∀ c, v (g^[n] x) c = v x c + n * d c := by
  induction n generalizing x with
  | zero => simpa using hx
  | succ n ih =>
    have hn : ∀ c, ((n + 1 : Nat) : Int) * d c = n * d c + d c := fun c => by push_cast; ring
    have hs : ∀ c, 0 ≤ v x c + d c := by
      intro c
      have h := h1 c
      rw [hn] at h
      rcases le_total 0 (d c) with hd | hd
      · have := h0 c
        omega
      · have : (n : Int) * d c ≤ 0 := mul_nonpos_of_nonneg_of_nonpos (by omega) hd
        omega
    obtain ⟨hP, hv⟩ := hg x hx h0 hs
    have hr := ih (g x) hP (fun c => by rw [hv]; exact hs c)
      (fun c => by have := h1 c; rw [hn] at this; rw [hv]; omega)
    rw [iterate_succ_apply]
    refine ⟨hr.1, fun c => ?_⟩
    rw [hr.2 c, hv c, hn c]
    omega

end Ledger

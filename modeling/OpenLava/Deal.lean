import Mathlib.Algebra.BigOperators.Group.List.Basic
import Mathlib.Tactic.Abel

/-!
# Dealing out an amount

Loops that go through a list and give each entry a part of an amount, as long as not enough has been given. `deal` gives
to entries that are there already, `make` makes an entry for each element it gives something to.
-/

namespace Deal

open List

variable {α β M : Type} [AddCommGroup M]

section

variable (go : M → Prop) [DecidablePred go] (amt : α → M → M) (put : α → M → α)

/-- Each entry in turn is given an amount that may depend on what has been given. -/
def deal : List α → M → List α × M
  | [], n => ([], n)
  | e :: es, n =>
    if go n then
      let r := deal es (n + amt e n)
      (put e (amt e n) :: r.1, r.2)
    else (e :: es, n)

variable {go amt put}

theorem deal_stop (h : ¬ go n) (es : List α) : deal go amt put es n = (es, n) := by
  cases es with
  | nil => rfl
  | cons => exact if_neg h

/-- The rule of the loop: `P` holds before, `Q` after, `I` of what is given, which is what is
counted. -/
theorem deal_rule {P Q : α → Prop} {I : M → Prop} (hskip : ∀ e, P e → Q e)
    (hs : ∀ e n, go n → I n → P e → Q (put e (amt e n)) ∧ f (put e (amt e n)) = f e + amt e n ∧ I (n + amt e n))
    (es : List α) (n : M) (hes : ∀ e ∈ es, P e) (hn : I n) : (∀ e ∈ (deal go amt put es n).1, Q e) ∧
      ((deal go amt put es n).1.map f).sum - (deal go amt put es n).2 = (es.map f).sum - n ∧
      I (deal go amt put es n).2 := by
  induction es generalizing n with
  | nil => exact ⟨by simp [deal], rfl, hn⟩
  | cons e es ih =>
    rw [forall_mem_cons] at hes
    simp only [deal]
    split
    case isTrue hgo =>
      obtain ⟨hq, hf, hi⟩ := hs e n hgo hn hes.1
      obtain ⟨hqs, hs, hi⟩ := ih _ hes.2 hi
      refine ⟨forall_mem_cons.mpr ⟨hq, hqs⟩, ?_, hi⟩
      rw [sub_eq_iff_eq_add] at hs ⊢
      rw [map_cons, sum_cons, map_cons, sum_cons, hf, hs]
      abel
    case isFalse => exact ⟨fun e he => hskip e (forall_mem_cons.mpr hes e he), rfl, hn⟩

end

section

variable (go : M → Prop) [DecidablePred go] (mk : α → M → Option (M × β))

def make : List α → M → List β × M
  | [], n => ([], n)
  | c :: cs, n =>
    if go n then
      match mk c n with
      | none => make cs n
      | some (k, e) =>
        let r := make cs (n + k)
        (e :: r.1, r.2)
    else ([], n)

variable {go mk} in
theorem make_stop (h : ¬ go n) (cs : List α) : make go mk cs n = ([], n) := by
  cases cs with
  | nil => rfl
  | cons => exact if_neg h

/-- The rule of the loop: `P` holds of the elements, `Q` of the entries, `I` of what is counted. -/
theorem make_rule {P : α → Prop} {Q : β → Prop} {I : M → Prop}
    (hs : ∀ c n k e, go n → I n → P c → mk c n = some (k, e) → Q e ∧ f e = k ∧ I (n + k)) (cs : List α) (n : M)
    (hcs : ∀ c ∈ cs, P c) (hn : I n) : (∀ e ∈ (make go mk cs n).1, Q e) ∧ n + ((make go mk cs n).1.map f).sum =
    (make go mk cs n).2 ∧ I (make go mk cs n).2 := by
  induction cs generalizing n with
  | nil => exact ⟨by simp [make], by simp [make], hn⟩
  | cons c cs ih =>
    rw [forall_mem_cons] at hcs
    simp only [make]
    split
    case isTrue hgo =>
      split
      case h_1 => exact ih n hcs.2 hn
      case h_2 k e hmk =>
        obtain ⟨hq, hk, hi⟩ := hs c n k e hgo hn hcs.1 hmk
        obtain ⟨hqs, hs, hi⟩ := ih _ hcs.2 hi
        refine ⟨forall_mem_cons.mpr ⟨hq, hqs⟩, ?_, hi⟩
        rw [← hs, map_cons, sum_cons, hk, add_assoc]
    case isFalse => exact ⟨by simp, by simp, hn⟩

end

end Deal

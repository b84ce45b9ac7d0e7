import Mathlib.Tactic.Common

/-!
# Runs of guarded steps

A system is a state type with one function per operation. A property of the operations
and of the states they start in is met by a run when every step of it meets the property.
-/

namespace Run

variable {σ Op : Type} (step : Op → σ → σ) (ok : Op → σ → Prop)

def run : List Op → σ → σ
  | [], s => s
  | op :: ops, s => run ops (step op s)

/-- Every step of the run meets `ok`. -/
def Meets : List Op → σ → Prop
  | [], _ => True
  | op :: ops, s => ok op s ∧ Meets ops (step op s)

instance decidableMeets [∀ op s, Decidable (ok op s)] : (ops : List Op) → (s : σ) → Decidable (Meets step ok ops s)
  | [], _ => inferInstanceAs (Decidable True)
  | op :: ops, s =>
    have := decidableMeets ops (step op s)
    inferInstanceAs (Decidable (ok op s ∧ Meets step ok ops (step op s)))

variable {step ok}

theorem run_invariant {I : σ → Prop} (hstep : ∀ op s, I s → ok op s → I (step op s)) (ops : List Op) (s : σ)
    (hs : I s) (ho : Meets step ok ops s) : I (run step ops s) := by
  induction ops generalizing s with
  | nil => exact hs
  | cons op ops ih => exact ih _ (hstep op s hs ho.1) ho.2

theorem run_preserves {I : σ → Prop} (hstep : ∀ op s, I s → I (step op s)) (ops : List Op) (s : σ) (hs : I s) :
    I (run step ops s) := by
  induction ops generalizing s with
  | nil => exact hs
  | cons op ops ih => exact ih _ (hstep op s hs)

theorem meets_of_invariant {I : σ → Prop} (hstep : ∀ op s, I s → I (step op s)) (hok : ∀ op s, I s → ok op s)
    (ops : List Op) (s : σ) (hs : I s) : Meets step ok ops s := by
  induction ops generalizing s with
  | nil => trivial
  | cons op ops ih => exact ⟨hok op s hs, ih _ (hstep op s hs)⟩

theorem Meets.and (ops : List Op) (s : σ) (h : Meets step ok ops s) (h' : Meets step ok' ops s) :
    Meets step (fun op s => ok op s ∧ ok' op s) ops s := by
  induction ops generalizing s with
  | nil => trivial
  | cons op ops ih => exact ⟨⟨h.1, h'.1⟩, ih _ h.2 h'.2⟩

theorem Meets.imp (ops : List Op) (s : σ) (h : Meets step ok ops s)
    (hi : ∀ op s, ok op s → ok' op s) : Meets step ok' ops s := by
  induction ops generalizing s with
  | nil => trivial
  | cons op ops ih => exact ⟨hi op s h.1, ih _ h.2⟩

/-- A property that a step has iff it meets the condition holds in a run iff all steps meet it. -/
theorem meets_property_iff {I P : σ → Prop} (hkept : ∀ op s, I s → ok op s → I (step op s))
    (hstep : ∀ op s, I s → (P (step op s) ↔ ok op s)) (ops : List Op) (s : σ) (hs : I s) :
    Meets step (fun op s => P (step op s)) ops s ↔ Meets step ok ops s := by
  induction ops generalizing s with
  | nil => exact Iff.rfl
  | cons op ops ih =>
    constructor
    · rintro ⟨hop, ho⟩
      have hok := (hstep op s hs).mp hop
      exact ⟨hok, (ih _ (hkept op s hs hok)).mp ho⟩
    · rintro ⟨hok, ho⟩
      exact ⟨(hstep op s hs).mpr hok, (ih _ (hkept op s hs hok)).mpr ho⟩

section

variable (step) (p : Op → σ → Prop) [∀ op s, Decidable (p op s)]

def occurs : List Op → σ → Nat
  | [], _ => 0
  | op :: ops, s => (if p op s then 1 else 0) + occurs ops (step op s)

variable {step p}

theorem occurs_eq_zero (ops : List Op) (s : σ) : occurs step p ops s = 0 ↔ Meets step (fun op s => ¬ p op s) ops s := by
  induction ops generalizing s with
  | nil => exact iff_of_true rfl trivial
  | cons op ops ih =>
    rw [occurs, Nat.add_eq_zero_iff, ih]
    refine and_congr_left' ?_
    split_ifs with h <;> simp [h]

theorem run_count {I : σ → Prop} (hstep : ∀ op s, I s → ok op s → I (step op s)) {f : σ → Int}
    (hc : ∀ op s, I s → ok op s → f (step op s) = f s + if p op s then 1 else 0) (ops : List Op) (s : σ)
    (hs : I s) (ho : Meets step ok ops s) : f (run step ops s) = f s + occurs step p ops s := by
  induction ops generalizing s with
  | nil => simp [run, occurs]
  | cons op ops ih =>
    rw [run, ih _ (hstep op s hs ho.1) ho.2, hc op s hs ho.1, occurs]
    split_ifs <;> push_cast <;> omega

end

end Run

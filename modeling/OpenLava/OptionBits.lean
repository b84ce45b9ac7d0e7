import Mathlib.Data.BitVec

/-!
Words of option bits. A `Flag` is a mask with one bit, and carries the place of that bit: a test of the mask is
then a test of the place, whatever word the mask is applied to.
-/

namespace OptionBits

structure Flag where
  mask : BitVec 32
  pos : Nat
  mask_eq : mask = BitVec.twoPow 32 pos

variable {w : BitVec 32} {f : Flag}

/-- `w & f` as a condition. -/
def has (w : BitVec 32) (f : Flag) : Bool := w &&& f.mask != 0

/-- `w | f` -/
def set (w : BitVec 32) (f : Flag) : BitVec 32 := w ||| f.mask

/-- `w & ~f` -/
def clear (w : BitVec 32) (f : Flag) : BitVec 32 := w &&& ~~~f.mask

def collect (conditions : List (Flag × Bool)) : BitVec 32 :=
  conditions.foldl (fun w c => if c.2 then set w c.1 else w) 0

theorem has_eq (w : BitVec 32) (f : Flag) : has w f = w.getLsbD f.pos := by
  have hz : w &&& BitVec.twoPow 32 f.pos = 0 ↔ w.getLsbD f.pos = false := by
    rw [BitVec.and_twoPow]
    cases h : w.getLsbD f.pos with
    | false => simp
    | true =>
      have hlt : f.pos < 32 := BitVec.lt_of_getLsbD h
      refine iff_of_false (fun h0 => ?_) (by simp)
      have hb := congrArg (fun v : BitVec 32 => v.getLsbD f.pos) h0
      simp [hlt] at hb
  unfold has
  rw [f.mask_eq]
  cases h : w.getLsbD f.pos with
  | false => simp [hz.mpr h]
  | true => simpa using fun h0 => by simp [hz.mp h0] at h

theorem set_bit (i : Nat) : (set w f).getLsbD i = (w.getLsbD i || decide (i < 32 ∧ f.pos = i)) := by
  unfold set
  rw [f.mask_eq, BitVec.getLsbD_or, BitVec.getLsbD_twoPow]
  by_cases h : f.pos = i <;> simp [h]

theorem clear_bit (i : Nat) : (clear w f).getLsbD i = (w.getLsbD i && decide (f.pos ≠ i)) := by
  unfold clear
  rw [f.mask_eq, BitVec.getLsbD_and, BitVec.getLsbD_not, BitVec.getLsbD_twoPow]
  by_cases hi : i < 32
  · by_cases h : f.pos = i <;> simp [h, hi]
  · simp [BitVec.getLsbD_of_ge w i (not_lt.mp hi)]

theorem collect_bit (conditions : List (Flag × Bool)) (hi : i < 32) :
    (collect conditions).getLsbD i = conditions.any fun c => c.2 && decide (c.1.pos = i) := by
  have hr : ∀ w : BitVec 32, (conditions.foldl (fun w c => if c.2 then set w c.1 else w) w).getLsbD i =
      (w.getLsbD i || conditions.any fun c => c.2 && decide (c.1.pos = i)) := by
    induction conditions with
    | nil => simp
    | cons c rest ih =>
      intro w
      rw [List.foldl_cons, ih, List.any_cons]
      cases c.2 with
      | false => simp only [Bool.false_eq_true, if_false, Bool.false_and, Bool.false_or]
      | true => simp only [if_true, set_bit, hi, true_and, Bool.true_and, Bool.or_assoc]
  rw [collect, hr]
  simp

end OptionBits

import Mathlib.Data.List.Basic
import Mathlib.Tactic.Common

/-!
# Sets of numbers as masks of words

A list of words of `w` bits, lowest word first, holds the numbers whose bits are on; a bit outside the mask is off.
-/

namespace WordMask

open List

variable {w : Nat}

def has (ws : List (BitVec w)) (x : Nat) : Bool := (ws.getD (x / w) 0#w).getLsbD (x % w)

/-- The words of `s` are worked into those of `d`, and `tail` is applied to the words that `d` has beyond them. -/
def onto (f : BitVec w → BitVec w → BitVec w) (tail : BitVec w → BitVec w) :
    List (BitVec w) → List (BitVec w) → List (BitVec w)
  | ds, [] => ds.map tail
  | [], _ :: _ => []
  | d :: ds, s :: ss => f d s :: onto f tail ds ss

def turnOn (ws : List (BitVec w)) (x : Nat) : List (BitVec w) := ws.modify (x / w) (· ||| (1#w <<< (x % w)))

def turnOff (ws : List (BitVec w)) (x : Nat) : List (BitVec w) := ws.modify (x / w) (· &&& ~~~(1#w <<< (x % w)))

@[simp] theorem has_replicate (n x : Nat) : has (replicate n 0#w) x = false := by
  unfold has
  rw [getD_eq_getElem?_getD, List.getElem?_replicate]
  split <;> simp

@[simp] theorem has_append_zeros (ws : List (BitVec w)) (n x : Nat) : has (ws ++ replicate n 0#w) x = has ws x := by
  unfold has
  simp only [getD_eq_getElem?_getD, List.getElem?_append, List.getElem?_replicate]
  by_cases hx : x / w < ws.length
  · simp [hx]
  · rw [if_neg hx, List.getElem?_eq_none (by omega)]
    split <;> simp

theorem lt_of_has {ws : List (BitVec w)} (h : has ws x = true) : x < w * ws.length := by
  unfold has at h
  have hword : x / w < ws.length := by
    by_contra hge
    rw [getD_eq_getElem?_getD, List.getElem?_eq_none (by omega)] at h
    simp at h
  have hw : 0 < w := by
    rcases Nat.eq_zero_or_pos w with rfl | hw
    · simp at h
    · exact hw
  rw [Nat.mul_comm]
  exact (Nat.div_lt_iff_lt_mul hw).mp hword

theorem has_onto {tail : BitVec w → BitVec w} {g : Bool → Bool → Bool}
    (hf : ∀ a b i, i < w → (f a b).getLsbD i = g (a.getLsbD i) (b.getLsbD i))
    (ht : ∀ a i, i < w → (tail a).getLsbD i = g (a.getLsbD i) false) (ho : g false false = false)
    (hl : ss.length ≤ ds.length) (hw : 0 < w) (x : Nat) : has (onto f tail ds ss) x = g (has ds x) (has ss x) := by
  have hi : x % w < w := Nat.mod_lt x hw
  unfold has
  generalize x % w = i at hi
  generalize x / w = k
  induction ds, ss using onto.induct generalizing k with
  | case1 ds =>
    by_cases hk : k < ds.length
    · simp [onto, getD_eq_getElem?_getD, hk, ht _ _ hi]
    · simp [onto, getD_eq_getElem?_getD, List.getElem?_eq_none (Nat.le_of_not_lt hk), ho]
  | case2 s ss => simp at hl
  | case3 d ds s ss ih =>
    cases k with
    | zero => simp [onto, hf _ _ _ hi]
    | succ k => simpa [onto] using ih (by simpa using hl) k

theorem onto_length {tail : BitVec w → BitVec w} (h : ss.length ≤ ds.length) : (onto f tail ds ss).length = ds.length := by
  induction ds, ss using onto.induct with
  | case1 ds => simp [onto]
  | case2 s ss => simp at h
  | case3 d ds s ss ih => simpa [onto] using ih (by simpa using h)

theorem has_turnOn {ws : List (BitVec w)} (hw : 0 < w) (hx : x < w * ws.length) (y : Nat) :
    has (turnOn ws x) y = (has ws y || decide (y = x)) := by
  have hword : x / w < ws.length := (Nat.div_lt_iff_lt_mul hw).mpr (by rwa [Nat.mul_comm])
  have ho : y % w < w := Nat.mod_lt y hw
  unfold has turnOn
  simp only [getD_eq_getElem?_getD, List.getElem?_modify]
  by_cases hk : x / w = y / w
  · -- the same word: the bit is the same one exactly for the same number
    have hs : y % w = x % w ↔ y = x := by
      constructor
      · intro h
        rw [← Nat.div_add_mod y w, ← Nat.div_add_mod x w, hk, h]
      · rintro rfl
        rfl
    rw [← hk, List.getElem?_eq_getElem hword]
    simp only [if_true, Option.getD_some, ← BitVec.twoPow_eq, ← hs]
    simp [ho, eq_comm]
  · have hne : y ≠ x := by
      rintro rfl
      exact hk rfl
    simp [hk, hne]

end WordMask

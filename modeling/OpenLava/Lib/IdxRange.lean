import Mathlib.Tactic.Ring
import OpenLava.Cmd.JobId

/-!
# Ranges of array indexes

The ranges of a job array index list, as `mbatchd` and the commands go through them: a loop that counts in an `int`.
-/

namespace OpenLava.IdxRange

open List

open JobId (IdxList int)

def numIndexes (idx : IdxList) : Int := (idx.stop - idx.start) / idx.step + 1

def indexes (idx : IdxList) : List Int := (range (numIndexes idx).toNat).map fun k : Nat => idx.start + k * idx.step

/-- `for (i = idx->start; i <= idx->end; i += idx->step)`, from `i` on. -/
def indexLoop (idx : IdxList) : Nat → Int → Option (List Int)
  | 0, _ => none
  | fuel + 1, i => if i ≤ idx.stop then (indexLoop idx fuel (int (i + idx.step))).map (i :: ·) else some []

def indexLoops (fuel : Nat) (idxList : List IdxList) : Option (List Int) :=
  (idxList.mapM fun idx => indexLoop idx fuel idx.start).map flatten

theorem int_of_range (hl : -2 ^ 31 ≤ n) (hh : n < 2 ^ 31) : int n = n := by
  rw [int, Int.bmod_def]
  split <;> omega

structure Upward (idx : IdxList) : Prop where
  start : 1 ≤ idx.start
  step : 1 ≤ idx.step
  order : idx.start ≤ idx.stop

variable {idx : IdxList}

theorem Upward.numIndexes_bounds (h : Upward idx) : 1 ≤ numIndexes idx ∧ numIndexes idx ≤ idx.stop := by
  have hs := h.start
  have ho := h.order
  have hn : 0 ≤ (idx.stop - idx.start) / idx.step := Int.ediv_nonneg (by omega) (by linarith [h.step])
  have hle : (idx.stop - idx.start) / idx.step ≤ idx.stop - idx.start := Int.ediv_le_self _ (by omega)
  unfold numIndexes
  omega

theorem indexes_length (h : Upward idx) : ((indexes idx).length : Int) = numIndexes idx := by
  have hpos := h.numIndexes_bounds.1
  simp only [indexes, length_map, length_range]
  omega

theorem flatMap_indexes_length {l : List IdxList} (h : ∀ idx ∈ l, Upward idx) :
    ((l.flatMap indexes).length : Int) = (l.map numIndexes).sum := by
  induction l with
  | nil => rfl
  | cons idx l ih =>
    rw [forall_mem_cons] at h
    rw [flatMap_cons, length_append, Nat.cast_add, indexes_length h.1, ih h.2, map_cons, sum_cons]

theorem lt_numIndexes_iff (h : Upward idx) (k : Nat) :
    k < (numIndexes idx).toNat ↔ idx.start + k * idx.step ≤ idx.stop := by
  have hpos := h.numIndexes_bounds.1
  have hd : (k : Int) ≤ (idx.stop - idx.start) / idx.step ↔ (k : Int) * idx.step ≤ idx.stop - idx.start :=
    Int.le_ediv_iff_mul_le (by linarith [h.step])
  unfold numIndexes at hpos ⊢
  omega

theorem mem_indexes (h : Upward idx) : i ∈ indexes idx ↔ ∃ k : Nat, i = idx.start + k * idx.step ∧ i ≤ idx.stop := by
  simp only [indexes, mem_map, mem_range, lt_numIndexes_iff h]
  constructor
  · rintro ⟨k, hk, rfl⟩
    exact ⟨k, rfl, hk⟩
  · rintro ⟨k, rfl, hk⟩
    exact ⟨k, hk, rfl⟩

/-- The counter of the loop stays an `int` if the step cannot take it too far. -/
theorem indexLoop_eq (h : Upward idx) (hs : idx.stop + idx.step < 2 ^ 31) (fuel k : Nat)
    (hk : k ≤ (numIndexes idx).toNat) (hf : (numIndexes idx).toNat < k + fuel) :
    indexLoop idx fuel (idx.start + k * idx.step) =
      some ((range' k ((numIndexes idx).toNat - k)).map fun k : Nat => idx.start + k * idx.step) := by
  induction fuel generalizing k with
  | zero => omega
  | succ fuel ih =>
    have hr := lt_numIndexes_iff h k
    simp only [indexLoop]
    split
    case isTrue hle =>
      have hlt := hr.mpr hle
      have hn : 0 ≤ (k : Int) * idx.step := mul_nonneg (by omega) (by linarith [h.step])
      have hs := h.start
      have ho := h.step
      have hn : int (idx.start + k * idx.step + idx.step) = idx.start + (k + 1 : Nat) * idx.step := by
        rw [int_of_range (by linarith) (by linarith)]
        push_cast
        ring
      rw [hn, ih (k + 1) hlt (by omega), show (numIndexes idx).toNat - k = (numIndexes idx).toNat - (k + 1) + 1 by omega,
        range'_succ]
      rfl
    case isFalse hgt =>
      have he : (numIndexes idx).toNat - k = 0 := by omega
      rw [he]
      rfl

theorem indexLoops_eq {fuel : Nat} (h : ∀ idx ∈ l, Upward idx ∧ idx.stop + idx.step < 2 ^ 31 ∧ idx.stop < fuel) :
    indexLoops fuel l = some (l.flatMap indexes) := by
  have hl : ∀ idx ∈ l, indexLoop idx fuel idx.start = some (indexes idx) := by
    intro idx hi
    obtain ⟨hup, hs, hf⟩ := h idx hi
    have hb := hup.numIndexes_bounds
    have ha := indexLoop_eq hup hs fuel 0 (Nat.zero_le _) (by omega)
    simpa [indexes, range_eq_range'] using ha
  have hmap : (l.mapM fun idx => indexLoop idx fuel idx.start) = some (l.map indexes) := by
    clear h
    induction l with
    | nil => rfl
    | cons idx l ih =>
      rw [forall_mem_cons] at hl
      rw [mapM_cons, hl.1, ih hl.2]
      rfl
  rw [indexLoops, hmap, Option.map_some, flatMap_def]

end OpenLava.IdxRange

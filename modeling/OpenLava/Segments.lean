import Mathlib.Data.List.InsertIdx
import Mathlib.Tactic

/-!
# Segments of ascending lists

A list that ascends by a key falls into segments. Whether an entry is an end of its segment can be read off the entries
next to it, and so can the new ends when it enters or leaves.
-/

namespace Segments

open List

variable {α β : Type*}

section

variable {l1 l2 : List α}

theorem dropWhile_ne [DecidableEq α] (h : a ∉ l1) : (l1 ++ a :: l2).dropWhile (· ≠ a) = a :: l2 := by
  induction l1 with
  | nil => simp
  | cons b l1 ih =>
    rw [mem_cons, not_or] at h
    simpa [Ne.symm h.1] using ih h.2

theorem takeWhile_ne [DecidableEq α] (h : a ∉ l1) : (l1 ++ a :: l2).takeWhile (· ≠ a) = l1 := by
  induction l1 with
  | nil => simp
  | cons b l1 ih =>
    rw [mem_cons, not_or] at h
    simpa [Ne.symm h.1] using ih h.2

theorem erase_split [DecidableEq α] (h : a ∉ l1) : (l1 ++ a :: l2).erase a = l1 ++ l2 := by
  rw [erase_append_right _ h, erase_cons_head]

theorem insertIdx_append (k : Nat) : (l1 ++ l2).insertIdx (l1.length + k) a = l1 ++ l2.insertIdx k a := by
  induction l1 with
  | nil => simp
  | cons b l1 ih => simpa [Nat.add_right_comm] using ih

theorem insertIdx_append_left (hk : k ≤ l1.length) : (l1 ++ l2).insertIdx k a = l1.insertIdx k a ++ l2 := by
  induction l1 generalizing k with
  | nil =>
    obtain rfl : k = 0 := by simpa using hk
    simp
  | cons b l1 ih =>
    cases k with
    | zero => simp
    | succ k => simpa using ih (by simpa using hk)

theorem insertIdx_split (l : List α) (hk : k ≤ l.length) :
    ∃ l1 l2, l = l1 ++ l2 ∧ l.insertIdx k a = l1 ++ a :: l2 ∧ l1 = l.take k ∧ l2 = l.drop k := by
  refine ⟨l.take k, l.drop k, (take_append_drop k l).symm, ?_, rfl, rfl⟩
  have hl : (l.take k).length + 0 = k := by simp [hk]
  calc l.insertIdx k a = (l.take k ++ l.drop k).insertIdx ((l.take k).length + 0) a := by
        rw [take_append_drop, hl]
    _ = l.take k ++ a :: l.drop k := by
        rw [insertIdx_append, insertIdx_zero]

theorem takeWhile_parts (h₁ : ∀ a ∈ l1, p a) (h₂ : ∀ b ∈ l2, p b = false) : (l1 ++ l2).takeWhile p = l1 := by
  rw [takeWhile_append_of_pos h₁]
  cases l2 with
  | nil => simp
  | cons b l2 => rw [takeWhile_cons_of_neg (by simp [h₂ b]), append_nil]

theorem find?_parts (h₁ : ∀ a ∈ l1, p a = false) (h₂ : ∀ b ∈ l2, p b) : (l1 ++ l2).find? p = l2.head? := by
  rw [List.find?_append, List.find?_eq_none.mpr (fun a ha => by simp [h₁ a ha]), Option.none_or]
  cases l2 with
  | nil => rfl
  | cons b l2 => rw [List.find?_cons_of_pos (h₂ b (by simp)), List.head?_cons]

theorem pair_split (h : [a, b].Sublist l) : ∃ l1 l2 l3, l = l1 ++ a :: l2 ++ b :: l3 := by
  obtain ⟨l1, l', rfl, hb⟩ : ∃ l1 l', l = l1 ++ a :: l' ∧ [b].Sublist l' := by
    obtain ⟨r1, r2, rfl, ha, hb⟩ := cons_sublist_iff.mp h
    obtain ⟨l1, l2, rfl⟩ := append_of_mem ha
    exact ⟨l1, l2 ++ r2, by simp, hb.trans (sublist_append_right _ _)⟩
  obtain ⟨l2, l3, rfl⟩ := append_of_mem (singleton_sublist.mp hb)
  exact ⟨l1, l2, l3, by simp⟩

theorem pair_sublist {i k : Nat} (hi : l[i]? = some a) (hk : l[k]? = some b) (hik : i < k) : [a, b].Sublist l := by
  rw [← take_append_drop k l, ← singleton_append]
  refine Sublist.append (singleton_sublist.mpr ?_) (singleton_sublist.mpr ?_)
  · exact mem_of_getElem? (i := i) (by rw [List.getElem?_take, if_pos hik, hi])
  · exact mem_of_getElem? (i := 0) (by rw [List.getElem?_drop, Nat.add_zero, hk])

end

variable [LinearOrder β] (k : α → β)

def Ascending (l : List α) : Prop := l.Pairwise fun a b => k a ≤ k b

def segment (v : β) (l : List α) : List α := l.filter fun a => k a = v

variable {k}

theorem ascending_split : Ascending k (l1 ++ x :: l2) ↔
    Ascending k (l1 ++ l2) ∧ (∀ a ∈ l1, k a ≤ k x) ∧ ∀ b ∈ l2, k x ≤ k b := by
  unfold Ascending
  rw [pairwise_append, pairwise_append, pairwise_cons]
  constructor
  · rintro ⟨h1, ⟨hx, h2⟩, hc⟩
    exact ⟨⟨h1, h2, fun a ha b hb => hc a ha b (by simp [hb])⟩, fun a ha => hc a ha x (by simp), hx⟩
  · rintro ⟨⟨h1, h2, hc⟩, hle, hge⟩
    exact ⟨h1, ⟨hge, h2⟩, fun a ha => forall_mem_cons.mpr ⟨hle a ha, hc a ha⟩⟩

theorem segment_append : segment k v (l1 ++ l2) = segment k v l1 ++ segment k v l2 := filter_append ..

theorem segment_split_same : segment k (k x) (l1 ++ x :: l2) = segment k (k x) l1 ++ x :: segment k (k x) l2 := by
  simp [segment]

theorem segment_split_other (h : k x ≠ v) : segment k v (l1 ++ x :: l2) = segment k v (l1 ++ l2) := by
  simp [segment, h]

theorem head_segment (h : ∀ b ∈ l2, k x ≤ k b) (ha : Ascending k l2) :
    l2.head?.filter (fun b => k b = k x) = (segment k (k x) l2).head? := by
  cases l2 with
  | nil => rfl
  | cons b l2 =>
    by_cases hb : k b = k x
    · simp [segment, hb]
    · have hlt : k x < k b := lt_of_le_of_ne (h b (by simp)) (Ne.symm hb)
      have hn : segment k (k x) (b :: l2) = [] := by
        refine filter_eq_nil_iff.mpr fun c hc => ?_
        rcases mem_cons.mp hc with rfl | hc
        · simpa using hb
        · simpa using (hlt.trans_le ((pairwise_cons.mp ha).1 c hc)).ne'
      simp [hn, Option.filter, hb]

/-- The entry before `x` is of the segment of `x`, or none is. -/
theorem last_segment (h : ∀ a ∈ l1, k a ≤ k x) (hasc : Ascending k l1) :
    l1.getLast?.filter (fun a => k a = k x) = (segment k (k x) l1).getLast? := by
  rcases eq_nil_or_concat l1 with rfl | ⟨l1, a, rfl⟩
  · rfl
  · rw [concat_eq_append] at h hasc ⊢
    by_cases ha : k a = k x
    · simp [segment, ha, Option.filter]
    · have hlt : k a < k x := lt_of_le_of_ne (h a (by simp)) ha
      have hn : segment k (k x) (l1 ++ [a]) = [] := by
        refine filter_eq_nil_iff.mpr fun c hc => ?_
        rcases mem_append.mp hc with hc | hc
        · simpa using (((pairwise_append.mp hasc).2.2 c hc a (by simp)).trans_lt hlt).ne
        · simpa [mem_singleton.mp hc] using ha
      simp [hn, Option.filter, ha]

theorem neighbours (h : Ascending k (l1 ++ x :: l2)) : l2.head?.filter (fun b => k b = k x) = (segment k (k x) l2).head? ∧
      l1.getLast?.filter (fun a => k a = k x) = (segment k (k x) l1).getLast? := by
  obtain ⟨h12, hle, hge⟩ := ascending_split.mp h
  exact ⟨head_segment hge (pairwise_append.mp h12).2.1, last_segment hle (pairwise_append.mp h12).1⟩

theorem getLast_with (h : Ascending k (l1 ++ x :: l2)) : (segment k (k x) (l1 ++ x :: l2)).getLast? =
    if (l2.head?.filter fun b => k b = k x).isNone then some x else (segment k (k x) (l1 ++ l2)).getLast? := by
  rw [segment_split_same, (neighbours h).1, segment_append]
  cases hs : segment k (k x) l2 with
  | nil => simp
  | cons b seg => simp [List.getLast?_append, List.getLast?_cons_cons]

theorem head_with (h : Ascending k (l1 ++ x :: l2)) : (segment k (k x) (l1 ++ x :: l2)).head? =
    if (l1.getLast?.filter fun a => k a = k x).isNone then some x else (segment k (k x) (l1 ++ l2)).head? := by
  rw [segment_split_same, (neighbours h).2, segment_append]
  cases hs : segment k (k x) l1 with
  | nil => simp
  | cons a seg => simp [List.getLast?_cons]

theorem getLast_without (h : Ascending k (l1 ++ x :: l2)) : (segment k (k x) (l1 ++ l2)).getLast? =
    if (l2.head?.filter fun b => k b = k x).isNone then l1.getLast?.filter (fun a => k a = k x)
    else (segment k (k x) (l1 ++ x :: l2)).getLast? := by
  rw [segment_split_same, (neighbours h).1, (neighbours h).2, segment_append]
  cases hs : segment k (k x) l2 with
  | nil => simp
  | cons b seg => simp [List.getLast?_append, List.getLast?_cons_cons]

theorem head_without (h : Ascending k (l1 ++ x :: l2)) : (segment k (k x) (l1 ++ l2)).head? =
    if (l1.getLast?.filter fun a => k a = k x).isNone then l2.head?.filter (fun b => k b = k x)
    else (segment k (k x) (l1 ++ x :: l2)).head? := by
  rw [segment_split_same, (neighbours h).1, (neighbours h).2, segment_append]
  cases hs : segment k (k x) l1 with
  | nil => simp
  | cons a seg => simp [List.getLast?_cons]

/-- An ascending list is made of the entries of lower keys, a segment, and the entries of higher keys. -/
theorem ascending_parts (h : Ascending k l) (v : β) : ∃ lo hi, l = lo ++ segment k v l ++ hi ∧
    (∀ a ∈ lo, k a < v) ∧ ∀ b ∈ hi, v < k b := by
  induction l with
  | nil => exact ⟨[], [], rfl, by simp, by simp⟩
  | cons a l ih =>
    obtain ⟨hle, ha⟩ := pairwise_cons.mp h
    obtain ⟨lo, hi, heq, hlo, hhi⟩ := ih ha
    rcases lt_trichotomy (k a) v with hlt | hav | hgt
    · refine ⟨a :: lo, hi, ?_, by simpa [hlt] using hlo, hhi⟩
      have hs : segment k v (a :: l) = segment k v l := by simp [segment, hlt.ne]
      rw [hs, cons_append, cons_append, ← heq]
    · have hn : lo = [] := eq_nil_iff_forall_not_mem.mpr fun b hb => by
        have hb' : b ∈ l := by rw [heq]; simp [hb]
        exact absurd (hlo b hb) (hav ▸ hle b hb').not_gt
      subst hn
      refine ⟨[], hi, ?_, by simp, hhi⟩
      have hs : segment k v (a :: l) = a :: segment k v l := by simp [segment, hav]
      rw [hs, nil_append, cons_append, ← nil_append (segment k v l), ← heq]
    · have ha : ∀ b ∈ a :: l, v < k b := forall_mem_cons.mpr ⟨hgt, fun b hb => hgt.trans_le (hle b hb)⟩
      have hn : segment k v (a :: l) = [] :=
        filter_eq_nil_iff.mpr fun b hb => by simpa using (ha b hb).ne'
      exact ⟨[], a :: l, by rw [hn]; rfl, by simp, ha⟩

end Segments

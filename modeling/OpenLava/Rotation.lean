import Mathlib.Data.List.Forall2
import OpenLava.Segments

/-!
# Rotations of marked entries

The marked entries of a list move by one place each among their own places, the first of them to the place of the last,
while the other entries stay.
-/

namespace Rotation

open List

variable {α : Type*} {p : α → Bool} {a e t x : α} {l l' m o : List α}

/-- Marked entries are at the places of marked ones, and the others stay. -/
def Aligned (p : α → Bool) (l l' : List α) : Prop := List.Forall₂ (fun o f => p f = p o ∧ (p o = false → f = o)) l l'

/-- `l'` is `l` after the rotation that brings `e` to the last marked place. -/
structure Rotated (p : α → Bool) (e : α) (l l' : List α) : Prop where
  aligned : Aligned p l l'
  order : l'.filter p = (l.filter p).tail ++ [e]

theorem aligned_refl (p : α → Bool) (l : List α) : Aligned p l l := forall₂_same.mpr fun _ _ => ⟨rfl, fun _ => rfl⟩

theorem rotated_single (ha : p a) (he : p e) : Rotated p e [a] [e] where
  aligned := .cons ⟨by rw [ha, he], by simp [ha]⟩ .nil
  order := by simp [ha, he]

theorem Rotated.cons (h : Rotated p e (t :: o) l') (hx : p x) (ht : p t) (hm : ∀ b ∈ m, p b = false) :
    Rotated p e (x :: m ++ t :: o) (t :: m ++ l') where
  aligned := .cons ⟨by rw [hx, ht], by simp [hx]⟩ (rel_append (aligned_refl p m) h.aligned)
  order := by
    have hm' : m.filter p = [] := filter_eq_nil_iff.mpr fun b hb => by simp [hm b hb]
    have ho := h.order
    simp [hx, ht, hm', ho]

theorem Aligned.length_filter (h : Aligned p l l') : (l'.filter p).length = (l.filter p).length := by
  induction h with
  | nil => rfl
  | @cons o f l l' hof _ ih => cases hp : p o <;> simp [hof.1, hp, ih]

theorem Rotated.filter_sub (h : Rotated p e (e :: l) l') (hq : ∀ a, q a → p a) (he : q e) :
    l'.filter q = l.filter q ++ [e] := by
  have hs : ∀ l : List α, l.filter q = (l.filter p).filter q := fun l => by
    rw [filter_filter]
    exact filter_congr fun a _ => by cases hqa : q a <;> simp [hqa, hq a]
  rw [hs l', h.order, filter_cons_of_pos (hq e he), tail_cons, filter_append, ← hs l]
  simp [he]

/-- A marked entry behind the first does not stay at its place. -/
theorem Rotated.moves (h : Rotated p e (e :: l1 ++ x :: l2) l') (he : p e) (hx : p x) (hnd : l'.Nodup) :
    l'[l1.length + 1]? ≠ some x := by
  intro hat
  obtain ⟨f1, f2, rfl, hl⟩ : ∃ f1 f2, l' = f1 ++ x :: f2 ∧ f1.length = l1.length + 1 := by
    obtain ⟨hlt, hg⟩ := List.getElem?_eq_some_iff.mp hat
    exact ⟨l'.take (l1.length + 1), l'.drop (l1.length + 2), by simp [← hg], by simp; omega⟩
  -- as many marked entries stand before it as before, one of them itself
  have hb : Aligned p (e :: l1) f1 := by
    have ht := forall₂_take (l1.length + 1) h.aligned
    rwa [take_left' (by simp), take_left' hl] at ht
  have hc := hb.length_filter
  rw [filter_cons_of_pos he, length_cons] at hc
  have ho := h.order
  simp only [filter_append, cons_append, filter_cons_of_pos he, filter_cons_of_pos hx, tail_cons,
    append_assoc] at ho
  have hmem : x ∈ f1.filter p := by
    have hg := congrArg (·[(l1.filter p).length]?) ho
    rw [List.getElem?_append_left (by omega), List.getElem?_append_right (by omega)] at hg
    exact mem_of_getElem? (by simpa using hg)
  exact (nodup_append.mp hnd).2.2 x (mem_of_mem_filter hmem) x mem_cons_self rfl

section

variable {b src dest : α} {pre mid post : List α}

/-- `x` stands between `a` and a later `b`. -/
def Between (l : List α) (a b x : α) : Prop := ∃ l1 l2 l₃, l = l1 ++ a :: (l2 ++ b :: l₃) ∧ x ∈ l2

theorem between_reverse : Between l.reverse a b x ↔ Between l b a x := by
  have h : ∀ {l : List α} {a b : α}, Between l a b x → Between l.reverse b a x := by
    rintro l a b ⟨l1, l2, l3, rfl, hx⟩
    exact ⟨l3.reverse, l2.reverse, l1.reverse, by simp, by simpa using hx⟩
  exact ⟨fun hb => by simpa using h hb, h⟩

theorem notMem_of_nodup (h : (l ++ a :: l').Nodup) : a ∉ l ∧ a ∉ l' := by
  rw [nodup_append, nodup_cons] at h
  exact ⟨fun hin => h.2.2 a hin a mem_cons_self rfl, h.2.1.1⟩

theorem split_unique (hnd : (l ++ a :: l').Nodup) (heq : l1 ++ a :: l2 = l ++ a :: l') : l1 = l ∧ l2 = l' := by
  obtain ⟨hl, hl'⟩ := notMem_of_nodup (heq ▸ hnd : (l1 ++ a :: l2).Nodup)
  obtain ⟨h1, -, h2⟩ := (append_cons_inj_of_notMem hl hl').mp heq
  exact ⟨h1, h2⟩

theorem between_iff (hnd : (pre ++ a :: (mid ++ b :: post)).Nodup) :
    Between (pre ++ a :: (mid ++ b :: post)) a b x ↔ x ∈ mid := by
  refine ⟨fun ⟨l1, l2, l3, heq, hx⟩ => ?_, fun hx => ⟨pre, mid, post, rfl, hx⟩⟩
  obtain ⟨-, hr⟩ := split_unique hnd heq.symm
  have hnd' : (mid ++ b :: post).Nodup := (nodup_cons.mp (nodup_append.mp hnd).2.1).2
  exact (split_unique hnd' hr).1 ▸ hx

theorem not_between_swap (hnd : (pre ++ a :: (mid ++ b :: post)).Nodup) :
    ¬ Between (pre ++ a :: (mid ++ b :: post)) b a x := by
  rintro ⟨l1, l2, l3, heq, -⟩
  have heq' : (l1 ++ b :: l2) ++ a :: l3 = pre ++ a :: (mid ++ b :: post) := by rw [heq]; simp
  obtain ⟨hpre, -⟩ := split_unique hnd heq'
  exact (nodup_append.mp hnd).2.2 b (by rw [← hpre]; simp) b (by simp) rfl

/-- The marked entries from `src` to a later `dest` have been rotated. -/
def Turned (p : α → Bool) (src dest : α) (l l' : List α) : Prop :=
  ∃ pre mid post f, l = pre ++ src :: (mid ++ dest :: post) ∧ l' = pre ++ f ++ post ∧
    Rotated p src (src :: mid ++ [dest]) f

variable {c : α → Bool}

theorem Turned.place (h : Turned p src dest l l') (hc : ∀ a, c a → p a) (hs : c src) (hd : c dest)
    (hnd : l.Nodup) {k : Nat} (hk : (l.filter c)[k]? = some dest) : (l'.filter c)[k]? = some src := by
  obtain ⟨pre, mid, post, f, rfl, rfl, hr⟩ := h
  have hf : f.filter c = mid.filter c ++ [dest] ++ [src] := by
    have hsub : f.filter c = (mid ++ [dest]).filter c ++ [src] := hr.filter_sub hc hs
    rw [hsub, filter_append, filter_cons_of_pos hd, filter_nil]
  have hold : (pre ++ src :: (mid ++ dest :: post)).filter c =
      (pre.filter c ++ src :: mid.filter c) ++ dest :: post.filter c := by simp [hs, hd]
  have hn : (pre ++ f ++ post).filter c = (pre.filter c ++ (mid.filter c ++ [dest])) ++ src :: post.filter c := by
    simp [hf]
  have hpla : k = (pre.filter c ++ src :: mid.filter c).length := by
    have hnd' := hold ▸ hnd.filter c
    rw [hold] at hk
    refine (List.getElem?_inj (List.getElem?_eq_some_iff.mp hk).1 hnd').mp ?_
    rw [hk, List.getElem?_append_right le_rfl]
    simp
  rw [hn, hpla, List.getElem?_append_right (by simp)]
  simp

theorem Rotated.length_eq (h : Rotated p e l l') : l'.length = l.length := h.aligned.length_eq.symm

theorem Turned.not_swapped (h : Turned p src dest l l') (hnd : l.Nodup) : ¬ Between l dest src x := by
  obtain ⟨pre, mid, post, f, rfl, -, -⟩ := h
  exact not_between_swap hnd

theorem reverse_place (hl : l'.length = l.length) (h : ∀ k : Nat, l[k]? = some a → l'[k]? = some b) (k : Nat)
    (hk : l.reverse[k]? = some a) : l'.reverse[k]? = some b := by
  have hlt : k < l.length := by simpa using (List.getElem?_eq_some_iff.mp hk).1
  rw [List.getElem?_reverse hlt] at hk
  rw [List.getElem?_reverse (hl ▸ hlt), hl]
  exact h _ hk

theorem forall₂_getElem? (h : List.Forall₂ R l l') {k : Nat} (ha : l[k]? = some a) : ∃ b, l'[k]? = some b ∧ R a b := by
  induction h generalizing k with
  | nil => simp at ha
  | @cons o f l l' hof _ ih =>
    cases k with
    | zero => exact ⟨f, rfl, by simpa using (by simpa using ha : o = a) ▸ hof⟩
    | succ k => exact ih (by simpa using ha)

/-- The other entries stay iff all that rotate between the two are of the narrower kind. -/
theorem Turned.stays_iff (h : Turned p src dest l l') (hsrc : c src) (hd : c dest) (hp : p src) (hnd : l.Nodup)
    (hnd' : l'.Nodup) : List.Forall₂ (fun o f => c o = false → f = o) l l' ↔ ∀ x, Between l src dest x → p x → c x := by
  obtain ⟨pre, mid, post, f, rfl, rfl, hr⟩ := h
  have hsame : ∀ l : List α, List.Forall₂ (fun o f => c o = false → f = o) l l := fun l =>
    forall₂_same.mpr fun _ _ _ => rfl
  have hb : pre ++ src :: (mid ++ dest :: post) = pre ++ (src :: mid ++ [dest]) ++ post := by simp
  constructor
  · intro hsta x hx hpx
    by_contra hcx
    obtain ⟨m1, m2, rfl⟩ := append_of_mem ((between_iff hnd).mp hx)
    have hr' : Rotated p src (src :: m1 ++ x :: (m2 ++ [dest])) f := by simpa using hr
    have hf : f.Nodup := (nodup_append.mp (nodup_append.mp hnd').1).2.1
    refine hr'.moves hp hpx hf ?_
    -- what stays at the place of `x` is `x`
    have hat : (pre ++ src :: (m1 ++ x :: m2 ++ dest :: post))[pre.length + (m1.length + 1)]? = some x := by
      rw [List.getElem?_append_right (by omega)]
      simp
    obtain ⟨x', hx', hs⟩ := forall₂_getElem? hsta hat
    have hl := hr'.length_eq
    rw [append_assoc, List.getElem?_append_right (by omega), Nat.add_sub_cancel_left,
      List.getElem?_append_left (by simp at hl; omega)] at hx'
    rw [hx', hs (by simpa using hcx)]
  · intro ha
    rw [hb]
    refine rel_append (rel_append (hsame pre) ?_) (hsame post)
    have hmem : ∀ x ∈ src :: mid ++ [dest], p x → c x := by
      intro x hx hpx
      simp only [cons_append, mem_cons, mem_append, not_mem_nil, or_false] at hx
      rcases hx with rfl | hx | rfl
      · exact hsrc
      · exact ha x ((between_iff hnd).mpr hx) hpx
      · exact hd
    refine ((forall₂_and_left _ _).mpr ⟨hmem, hr.aligned⟩).imp fun o f' ⟨hpc, _, hs⟩ hco => hs ?_
    by_contra hpo
    simp [hpc (by simpa using hpo)] at hco

end

section

variable [DecidableEq α] {b src : α}

def shiftEntry (p : α → Bool) (backward : Bool) (st : List α × α) (b : α) : List α × α :=
  if p b then
    let rest := st.1.erase st.2
    (rest.insertIdx (if backward then rest.idxOf b + 1 else rest.idxOf b) st.2, b)
  else st

theorem insertIdx_behind (h : b ∉ l1) : (l1 ++ b :: l2).insertIdx ((l1 ++ b :: l2).idxOf b + 1) t = l1 ++ b :: t :: l2 := by
  rw [idxOf_append_of_notMem h, idxOf_cons_self, Nat.add_zero, Segments.insertIdx_append, insertIdx_succ_cons,
    insertIdx_zero]

theorem insertIdx_at (h : b ∉ l1) : (l1 ++ b :: l2).insertIdx ((l1 ++ b :: l2).idxOf b) t = l1 ++ t :: b :: l2 := by
  rw [idxOf_append_of_notMem h, idxOf_cons_self, Segments.insertIdx_append, insertIdx_zero]

theorem shiftEntry_back (hb : p b) (hnd : (l1 ++ b :: m ++ t :: r).Nodup) :
    shiftEntry p true (l1 ++ b :: m ++ t :: r, t) b = (l1 ++ b :: t :: (m ++ r), b) := by
  have ht : t ∉ l1 ++ b :: m := (notMem_of_nodup hnd).1
  have hb' : b ∉ l1 := by
    rw [append_assoc, cons_append] at hnd
    exact (notMem_of_nodup hnd).1
  simp only [shiftEntry, hb, if_true, Segments.erase_split ht]
  rw [append_assoc, cons_append, insertIdx_behind hb']

/-- The loop towards the front up to `src`; `m` are the entries passed since `t`. -/
theorem shiftEntries_back (hs : p src) (jobs m : List α) (t : α) (r o : List α)
    (hnd : (l1 ++ src :: (jobs.reverse ++ m) ++ t :: (r ++ l2)).Nodup) (ht : p t) (hm : ∀ b ∈ m, p b = false)
    (hr : Rotated p e (t :: o) (r ++ [e])) :
    ∃ r', (jobs ++ [src]).foldl (shiftEntry p true) (l1 ++ src :: (jobs.reverse ++ m) ++ t :: (r ++ l2), t) =
        (l1 ++ src :: (r' ++ l2), src) ∧ (src :: r').Perm (src :: (jobs.reverse ++ m) ++ t :: r) ∧
      Rotated p e (src :: (jobs.reverse ++ m) ++ t :: o) (r' ++ [e]) := by
  induction jobs generalizing m t r o with
  | nil =>
    refine ⟨t :: (m ++ r), ?_, (perm_middle.symm.cons src), by simpa using hr.cons hs ht hm⟩
    rw [nil_append, foldl_cons, shiftEntry_back hs hnd]
    simp
  | cons b jobs ih =>
    rw [cons_append, foldl_cons]
    have hlist : (b :: jobs).reverse ++ m = jobs.reverse ++ b :: m := by simp
    rw [hlist] at hnd ⊢
    by_cases hb : p b
    · have hs : shiftEntry p true (l1 ++ src :: (jobs.reverse ++ b :: m) ++ t :: (r ++ l2), t) b =
          (l1 ++ src :: (jobs.reverse ++ []) ++ b :: ((t :: m ++ r) ++ l2), b) := by
        have hspl : l1 ++ src :: (jobs.reverse ++ b :: m) ++ t :: (r ++ l2) =
            (l1 ++ src :: jobs.reverse) ++ b :: m ++ t :: (r ++ l2) := by simp
        rw [hspl] at hnd ⊢
        rw [shiftEntry_back hb hnd]
        simp
      have hperm : (src :: (jobs.reverse ++ b :: m) ++ t :: r).Perm (src :: (jobs.reverse ++ []) ++ b :: (t :: m ++ r)) := by
        have hmid : (m ++ t :: r).Perm (t :: (m ++ r)) := perm_middle
        simp only [append_assoc, cons_append, append_nil]
        exact ((hmid.cons b).append_left _).cons src
      have hnd' : (l1 ++ src :: (jobs.reverse ++ []) ++ b :: ((t :: m ++ r) ++ l2)).Nodup := by
        have ha := (hperm.append_right l2).append_left l1
        simp only [append_assoc, cons_append] at ha hnd ⊢
        exact ha.nodup_iff.mp hnd
      obtain ⟨r', hf, hperm', hrot⟩ := ih [] b (t :: m ++ r) (m ++ t :: o) hnd' hb (by simp)
        (by simpa using hr.cons hb ht hm)
      refine ⟨r', hs ▸ hf, hperm'.trans hperm.symm, ?_⟩
      simpa using hrot
    · have hs : ∀ st, shiftEntry p true st b = st := fun st => by simp [shiftEntry, hb]
      obtain ⟨r', hf, hperm, hrot⟩ := ih (b :: m) t r o hnd ht (by simpa [hb] using hm) hr
      exact ⟨r', by rw [hs]; exact hf, hperm, hrot⟩

theorem shiftEntries_rotated (hs : p src) (hd : p dest) (hnd : (l1 ++ (src :: mid ++ [dest]) ++ l2).Nodup) :
    ∃ r, (mid.reverse ++ [src]).foldl (shiftEntry p true) (l1 ++ (src :: mid ++ [dest]) ++ l2, dest) =
        (l1 ++ src :: (r ++ l2), src) ∧ (src :: r).Perm (src :: mid ++ [dest]) ∧
      Rotated p src (src :: mid ++ [dest]) (r ++ [src]) := by
  have hlist : l1 ++ (src :: mid ++ [dest]) ++ l2 = l1 ++ src :: (mid.reverse.reverse ++ []) ++ dest :: ([] ++ l2) := by simp
  rw [hlist] at hnd ⊢
  obtain ⟨r, hf, hperm, hr⟩ :=
    shiftEntries_back hs mid.reverse [] dest [] [] hnd hd (by simp) (rotated_single hd hs)
  exact ⟨r, hf, by simpa using hperm, by simpa using hr⟩

/-- A turn towards the back is a turn towards the front of the reversed list. -/
theorem shiftEntry_reverse (hnd : l.Nodup) (ht : t ∈ l) (hb : b ∈ l) (hne : b ≠ t) :
    shiftEntry p false (l, t) b = ((shiftEntry p true (l.reverse, t) b).1.reverse, (shiftEntry p true (l.reverse, t) b).2) ∧
      (shiftEntry p false (l, t) b).1.Perm l := by
  by_cases hpb : p b
  · obtain ⟨l1, l2, hs, hl1⟩ := eq_append_cons_of_mem ((mem_erase_of_ne hne).mpr hb)
    have hnd' : (l1 ++ b :: l2).Nodup := hs ▸ hnd.erase t
    have hl2 : b ∉ l2.reverse := by
      rw [mem_reverse]
      exact (nodup_cons.mp (nodup_append.mp hnd').2.1).1
    have hr : l.reverse.erase t = l2.reverse ++ b :: l1.reverse := by
      rw [(nodup_reverse.mpr hnd).erase_eq_filter, filter_reverse, ← hnd.erase_eq_filter, hs]
      simp
    have hperm : (l1 ++ t :: b :: l2).Perm l :=
      perm_middle.trans ((hs ▸ (perm_cons_erase ht).symm : (t :: (l1 ++ b :: l2)).Perm l))
    simp only [shiftEntry, hpb, hr, insertIdx_behind hl2, hs, Bool.false_eq_true, if_false, if_true, insertIdx_at hl1]
    exact ⟨by simp, hperm⟩
  · simp [shiftEntry, hpb]

theorem shiftEntries_reverse (jobs : List α) (hnd : l.Nodup) (ht : t ∈ l) (hj : ∀ b ∈ jobs, b ∈ l)
    (hne : (t :: jobs).Nodup) : (jobs.foldl (shiftEntry p false) (l, t)).1 =
      (jobs.foldl (shiftEntry p true) (l.reverse, t)).1.reverse := by
  induction jobs generalizing l t with
  | nil => simp
  | cons b jobs ih =>
    have hb : b ∈ l := hj b mem_cons_self
    rw [nodup_cons, nodup_cons] at hne
    obtain ⟨hs, hperm⟩ := shiftEntry_reverse (p := p) hnd ht hb (fun heq => hne.1 (by simp [heq]))
    rw [foldl_cons, foldl_cons]
    have hn : (shiftEntry p false (l, t) b).2 = t ∨ (shiftEntry p false (l, t) b).2 = b := by
      by_cases hpb : p b
      · exact .inr (by simp [shiftEntry, hpb])
      · exact .inl (by simp [shiftEntry, hpb])
    have hst : shiftEntry p true (l.reverse, t) b =
        ((shiftEntry p false (l, t) b).1.reverse, (shiftEntry p false (l, t) b).2) := by
      rw [hs]
      simp
    rw [hst]
    generalize shiftEntry p false (l, t) b = st at hn hperm
    obtain ⟨l', t'⟩ := st
    refine ih (hperm.nodup_iff.mpr hnd) (hperm.mem_iff.mpr ?_) (fun i hi => hperm.mem_iff.mpr ?_) ?_
    · rcases hn with rfl | rfl <;> assumption
    · exact hj i (mem_cons_of_mem _ hi)
    · rcases hn with rfl | rfl
      · exact nodup_cons.mpr ⟨fun hin => hne.1 (mem_cons_of_mem _ hin), hne.2.2⟩
      · exact nodup_cons.mpr hne.2

end

end Rotation

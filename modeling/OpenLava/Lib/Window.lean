import Mathlib.Data.Rat.Floor
import Mathlib.Tactic.Linarith
import Mathlib.Tactic.NormNum

/-!
# Time windows

The windows of a day, as `window.c` keeps them: intervals in hours, exact here. An interval that reaches the start or
the end of the day is left open there, with `-1` and `25`; the window from `25` to `25` stands for a day that is closed.
-/

namespace OpenLava.Window

open List

structure Wind where
  (opentime closetime : ℚ)
  deriving DecidableEq

/-- What `new_wind` makes and `insertW` writes into it. -/
def newWind (ohour chour : ℚ) : Wind := if ohour < chour then ⟨ohour, chour⟩ else ⟨25, 25⟩

def mergeW (wp : Wind) (ohour chour : ℚ) : Bool × Wind :=
  if wp.opentime = -1 ∧ wp.closetime = 25 then (true, wp)
  else if ohour = -1 ∧ chour = 25 then (true, ⟨-1, 25⟩)
  else if ohour = 25 ∧ chour = 25 then (true, wp)
  else if chour ≤ ohour then (true, wp)
  else if wp.opentime = 25 ∧ wp.closetime = 25 then (true, ⟨ohour, chour⟩)
  else
    let ohour := if ohour ≤ 0 then -1 else ohour
    let chour := if 24 ≤ chour then 25 else chour
    if ¬ chour < wp.opentime ∧ ¬ wp.closetime < ohour then (true, ⟨min ohour wp.opentime, max chour wp.closetime⟩)
    else (false, wp)

/-- The windows after one that takes the interval in are inserted again. -/
def insertW : Nat → List Wind → ℚ → ℚ → Option (List Wind)
  | 0, _, _, _ => none
  | _ + 1, [], ohour, chour => some [newWind ohour chour]
  | depth + 1, first :: rest, ohour, chour =>
    let merged := fun wp => mergeW wp ohour chour
    if (first :: rest).any fun wp => (merged wp).1 then
      (rest.map fun wp => (merged wp).2).foldlM (fun week wp => insertW depth week wp.opentime wp.closetime) [(merged first).2]
    else some (first :: rest ++ [newWind ohour chour])

def Wind.Open (wp : Wind) (hour : ℚ) : Prop := wp.opentime ≤ hour ∧ hour < wp.closetime
  deriving Decidable

def OpenAt (windows : List Wind) (hour : ℚ) : Prop := ∃ wp ∈ windows, wp.Open hour

def Union (windows windows' both : List Wind) : Prop :=
  ∀ hour, 0 ≤ hour → hour < 24 → (OpenAt both hour ↔ OpenAt windows hour ∨ OpenAt windows' hour)

theorem newWind_open (ohour chour : ℚ) (h : hour < 24) :
    OpenAt [newWind ohour chour] hour ↔ OpenAt [⟨ohour, chour⟩] hour := by
  simp only [OpenAt, mem_singleton, exists_eq_left]
  unfold newWind Wind.Open
  split_ifs with hlt
  · rfl
  · constructor <;> intro h' <;> linarith

theorem mergeW_spec (h : mergeW wp ohour chour = (merged, wp')) (h₀ : 0 ≤ hour) (h₁ : hour < 24) :
    if merged then (wp'.Open hour ↔ wp.Open hour ∨ (⟨ohour, chour⟩ : Wind).Open hour) else wp' = wp := by
  unfold mergeW at h
  dsimp only at h
  generalize ho : (if ohour ≤ 0 then -1 else ohour) = o at h
  generalize hc : (if 24 ≤ chour then 25 else chour) = c at h
  -- the ends of the day do not change what is covered within it
  replace ho : o ≤ hour ↔ ohour ≤ hour := by
    rw [← ho]
    split_ifs
    · constructor <;> intro <;> linarith
    · rfl
  replace hc : hour < c ↔ hour < chour := by
    rw [← hc]
    split_ifs
    · constructor <;> intro <;> linarith
    · rfl
  unfold Wind.Open
  split_ifs at h with hf hn hclo he hmark ht <;> cases h
  · rw [if_pos rfl, hf.1, hf.2]
    exact iff_of_true ⟨by linarith, by linarith⟩ (.inl ⟨by linarith, by linarith⟩)
  · rw [if_pos rfl, hn.1, hn.2]
    exact iff_of_true ⟨by linarith, by linarith⟩ (.inr ⟨by linarith, by linarith⟩)
  · rw [if_pos rfl, hclo.1, hclo.2]
    exact ⟨Or.inl, fun h => h.resolve_right fun h => by linarith [h.1]⟩
  · rw [if_pos rfl]
    exact ⟨Or.inl, fun h => h.resolve_right fun h => absurd (h.1.trans_lt h.2) (not_lt.mpr he)⟩
  · rw [if_pos rfl, hmark.1, hmark.2]
    exact ⟨Or.inr, fun h => h.resolve_left fun h => by linarith [h.1]⟩
  · rw [if_pos rfl, min_le_iff, lt_max_iff, ← ho, ← hc]
    obtain ⟨hc', ho'⟩ := ht
    rw [not_lt] at hc' ho'
    constructor
    · rintro ⟨hle | hle, hlt | hlt⟩
      · exact .inr ⟨hle, hlt⟩
      · rcases le_or_gt wp.opentime hour with h | h
        · exact .inl ⟨h, hlt⟩
        · exact .inr ⟨hle, h.trans_le hc'⟩
      · rcases le_or_gt o hour with h | h
        · exact .inr ⟨h, hlt⟩
        · exact .inl ⟨hle, h.trans_le ho'⟩
      · exact .inl ⟨hle, hlt⟩
    · rintro (⟨hle, hlt⟩ | ⟨hle, hlt⟩)
      · exact ⟨.inr hle, .inr hlt⟩
      · exact ⟨.inl hle, .inl hlt⟩
  · rfl

theorem openAt_cons (wp : Wind) (l : List Wind) (hour : ℚ) : OpenAt (wp :: l) hour ↔ wp.Open hour ∨ OpenAt l hour := by
  simp [OpenAt]

theorem openAt_append (l l' : List Wind) (hour : ℚ) : OpenAt (l ++ l') hour ↔ OpenAt l hour ∨ OpenAt l' hour := by
  simp only [OpenAt, mem_append, or_and_right, exists_or]

/-- Once some window takes the interval in, the widened windows are open for all of it. -/
theorem merged_open (ha : (l.any fun wp => (mergeW wp ohour chour).1) = true) (h₀ : 0 ≤ hour) (h₁ : hour < 24) :
    OpenAt (l.map fun wp => (mergeW wp ohour chour).2) hour ↔ OpenAt l hour ∨ OpenAt [⟨ohour, chour⟩] hour := by
  simp only [OpenAt, mem_map, mem_singleton, exists_eq_left, exists_exists_and_eq_and]
  constructor
  · rintro ⟨wp, hwp, ho⟩
    have hs := mergeW_spec (Prod.mk.eta (p := mergeW wp ohour chour)).symm h₀ h₁
    split_ifs at hs
    · exact (hs.mp ho).imp_left fun h => ⟨wp, hwp, h⟩
    · exact .inl ⟨wp, hwp, hs ▸ ho⟩
  · rintro (⟨wp, hwp, ho⟩ | ho)
    · refine ⟨wp, hwp, ?_⟩
      have hs := mergeW_spec (Prod.mk.eta (p := mergeW wp ohour chour)).symm h₀ h₁
      split_ifs at hs
      · exact hs.mpr (.inl ho)
      · rwa [hs]
    · obtain ⟨wp, hwp, hm⟩ := any_eq_true.mp ha
      have hs := mergeW_spec (Prod.mk.eta (p := mergeW wp ohour chour)).symm h₀ h₁
      rw [if_pos hm] at hs
      exact ⟨wp, hwp, hs.mpr (.inr ho)⟩

theorem foldlM_insertW (hone : ∀ l ohour chour, l.length < depth →
      ∃ l', insertW depth l ohour chour = some l' ∧ l'.length ≤ l.length + 1 ∧ Union l [⟨ohour, chour⟩] l')
    (ws l : List Wind) (hd : l.length + ws.length ≤ depth) :
    ∃ l', ws.foldlM (fun week wp => insertW depth week wp.opentime wp.closetime) l = some l' ∧
      l'.length ≤ l.length + ws.length ∧ Union l ws l' := by
  induction ws generalizing l with
  | nil => exact ⟨l, rfl, le_rfl, fun hour _ _ => by simp [OpenAt]⟩
  | cons wp ws ih =>
    rw [length_cons] at hd
    obtain ⟨l1, h1, hl1, ho1⟩ := hone l wp.opentime wp.closetime (by omega)
    obtain ⟨l2, h2, hl2, ho2⟩ := ih l1 (by omega)
    refine ⟨l2, ?_, by rw [length_cons]; omega, fun hour h0 h24 => ?_⟩
    · rw [foldlM_cons, h1]
      exact h2
    · rw [ho2 hour h0 h24, ho1 hour h0 h24, openAt_cons, or_assoc]
      simp [OpenAt]

theorem insertW_spec (depth : Nat) (l : List Wind) (ohour chour : ℚ) (hd : l.length < depth) :
    ∃ l', insertW depth l ohour chour = some l' ∧ l'.length ≤ l.length + 1 ∧ Union l [⟨ohour, chour⟩] l' := by
  induction depth generalizing l ohour chour with
  | zero => omega
  | succ depth ih =>
    cases l with
    | nil => exact ⟨_, rfl, le_rfl, fun hour _ h1 => by rw [newWind_open ohour chour h1]; simp [OpenAt]⟩
    | cons first rest =>
      rw [insertW]
      split_ifs with ha
      · rw [length_cons] at hd ⊢
        obtain ⟨l', hl', hlen, ho⟩ := foldlM_insertW ih (rest.map fun wp => (mergeW wp ohour chour).2)
          [(mergeW first ohour chour).2] (by rw [length_map, length_singleton]; omega)
        rw [length_map, length_singleton] at hlen
        refine ⟨l', hl', by omega, fun hour h0 h1 => ?_⟩
        rw [ho hour h0 h1, ← merged_open ha h0 h1, map_cons, openAt_cons]
        simp [OpenAt]
      · refine ⟨_, rfl, by simp, fun hour _ h1 => ?_⟩
        rw [openAt_append, newWind_open ohour chour h1]

/-- The insertion goes no deeper than the list is long, and adds the hours of the new interval. -/
theorem insertW_covers (windows : List Wind) (ohour chour : ℚ) :
    ∃ windows', insertW (windows.length + 1) windows ohour chour = some windows' ∧
      ∀ hour, 0 ≤ hour → hour < 24 → (OpenAt windows' hour ↔ OpenAt windows hour ∨ ohour ≤ hour ∧ hour < chour) := by
  obtain ⟨windows', hr, -, ho⟩ := insertW_spec (windows.length + 1) windows ohour chour (Nat.lt_succ_self _)
  refine ⟨windows', hr, fun hour h0 h1 => (ho hour h0 h1).trans ?_⟩
  simp [OpenAt, Wind.Open]

end OpenLava.Window

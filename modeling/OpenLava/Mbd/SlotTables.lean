import OpenLava.Mbd.SlotBooks

/-!
# What the counter tables do

Which status changes `updCounters` accounts for, and which reservations `updResCounters`.
-/

namespace OpenLava

open Ledger Mask

/-- The changes `updCounters` has a row for, and those within one phase. -/
def Accounted (old new : Mask) : Bool :=
  match old.phase, new.phase with
  | some .finished, some .finished => true
  | some .finished, _ | none, _ | _, none => false
  | some .pending, some .pending => true
  | some .running, some .running => true
  | some _, some .running => !new.wait
  | some _, some .finished => !new.isPostFinish
  | some .pending, some _ => old.pend
  | some _, some .pending => new.pend
  | some _, some _ => true

variable {jp : JData} {old new : Mask} {ph ph' : Phase}

theorem heldBy_zero_or_one (ph : Phase) (r : Bool) (c : Counter) : heldBy ph r c = 0 ∨ heldBy ph r c = 1 := by
  cases ph <;> cases r <;> cases c <;> decide

theorem realises_shift {r r' : Bool} {p : Posting}
    (ha : ∀ c, p.acct c = (entryAt jp ph' r').amount c - (entryAt jp ph r).amount c)
    (hhost : p.host = some (fun c => heldBy ph' r' c - heldBy ph r c) ∨
      p.host = none ∧ ∀ c, heldBy ph' r' c - heldBy ph r c = 0) :
    Realises jp p (pendBy jp ph' r' - pendBy jp ph r) fun c => heldBy ph' r' c - heldBy ph r c where
  acct c := by
    rw [ha]
    simp only [Entry.amount, entryAt]
    split <;> ring
  host := hhost
  unit c := by
    have h := heldBy_zero_or_one ph r c
    have h' := heldBy_zero_or_one ph' r' c
    omega
  no_pend := by simp [heldBy_pend]

theorem updCountersRow_realises (jp : JData) (hold : old.phase = some ph) (hnew : new.phase = some ph')
    (ha : Accounted old new) (hne : ph ≠ ph') (hf : ph ≠ .finished) :
    ∃ p, updCountersRow jp.numHostPtr jp.maxNumProcessors old new = some p ∧
      Realises jp p (pendBy jp ph' false - pendBy jp ph false) fun c => heldBy ph' false c - heldBy ph false c := by
  have ho := phase_reads hold
  have hn := phase_reads hnew
  have hpend : old.pend ∨ old.psusp ↔ ph = .pending := by
    rw [← Bool.or_eq_true, show (old.pend || old.psusp) = old.isPend from rfl, ho.isPend, decide_eq_true_iff]
  simp only [Accounted, hold, hnew] at ha
  cases ph <;> cases ph' <;> simp at ha hne hf
  all_goals
    simp [updCountersRow, hn.known_RUN, hn.known_SSUSP, hn.known_USUSP, hn.known_finished, hn.known_PEND, ho.run,
      ho.ssusp, ho.ususp, ho.isPend, ho.wait, hpend, ha]
    refine realises_shift ?_ ?_
    · intro c
      cases c <;> simp [heldBy, pendBy, tally, hostTally, JData.numHostPtr, entryAt, Entry.amount] <;> ring
    · simp only [Option.some.injEq, reduceCtorEq, false_and, true_and, or_false, false_or, funext_iff]
      intro c
      cases c <;> rfl

theorem updCountersRow_running (hold : old.phase = some .running) (hnew : new.phase = some .running)
    (num numReq : Int) : updCountersRow num numReq old new = none := by
  have ho := phase_reads hold
  have hn := phase_reads hnew
  have hpend : ¬ (old.pend ∨ old.psusp) := by
    rw [← Bool.or_eq_true]
    exact ne_true_of_eq_false ho.isPend
  simp [updCountersRow, hn.known_RUN, hn.known_SSUSP, hn.known_USUSP, hn.known_finished, hn.known_PEND, ho.ssusp,
    ho.ususp, hpend]

theorem phase_congr {m m' : Mask} (h : m.known = m'.known) : m.phase = m'.phase := by
  have hk : ∀ m : Mask, m.known.phase = m.phase := fun _ => rfl
  rw [← hk m, h, hk]

theorem running_of_known_ne {m m' : Mask} (h : m.phase = some ph) (h' : m'.phase = some ph) (hpend : ph ≠ .pending)
    (hfin : ph ≠ .finished) (hne : m'.known ≠ m.known) : ph = .running := by
  have hf := phase_form h
  have hf' := phase_form h'
  cases ph with
  | pending => exact absurd rfl hpend
  | finished => exact absurd rfl hfin
  | running => rfl
  | ssusp | ususp =>
    obtain ⟨u, rfl⟩ := hf
    obtain ⟨u', rfl⟩ := hf'
    exact absurd rfl hne

theorem KeptBut.updCounters (h : KeptBut j (entryAt jp ph r) s) (hold : old.phase = some ph)
    (hnew : jp.phase = some ph') (ha : Accounted old jp.jStatus.mask) (hr : r = false ∨ ph = .pending ∧ ph' = .pending)
    (hs : (entryAt jp ph' r).Sound) : KeptBut j (entryAt jp ph' r) (updCounters jp old s) := by
  have hnew' : jp.jStatus.mask.phase = some ph' := hnew
  have ho := phase_reads hold
  have hn := phase_reads hnew'
  unfold OpenLava.updCounters
  dsimp only
  split_ifs with hf hkno hpend
  · -- a finished job stays finished
    obtain rfl : ph = .finished := by simpa [ho.isFinish] using hf
    cases ph' <;> simp [Accounted, hold, hnew'] at ha
    exact h
  · obtain rfl : ph = ph' := by
      rw [phase_congr hkno, hold] at hnew'
      exact Option.some.inj hnew'
    exact h
  · obtain ⟨rfl, rfl⟩ : ph' = .pending ∧ ph = .pending := by simpa [ho.isPend, hn.isPend] using hpend
    exact h
  · have hf' : ph ≠ .finished := by simpa [ho.isFinish] using hf
    have hr' : r = false := hr.resolve_right fun hp => hpend (by simp [ho.isPend, hn.isPend, hp])
    subst hr'
    by_cases hne : ph = ph'
    · subst hne
      have hpend' : ph ≠ .pending := fun hp => hpend (by simp [ho.isPend, hn.isPend, hp])
      obtain rfl := running_of_known_ne hold hnew' hpend' hf' hkno
      rw [updCountersRow_running hold hnew']
      exact h
    · obtain ⟨p, hp, hr⟩ := updCountersRow_realises jp hold hnew' ha hne hf'
      rw [hp]
      exact h.move hr hs

def Reservable (ph : Phase) : Prop := ph = .pending ∨ ph = .ssusp ∨ ph = .ususp

theorem updResCountersRow_same (num numReq : Int) (cur : JStatus) (hph : cur.mask.phase = some ph) :
    updResCountersRow num numReq cur cur = none := by
  have h := phase_reads hph
  cases hr : cur.reserve <;> cases ph <;>
    simp [updResCountersRow, hr, h.isFinish, h.known_SSUSP, h.known_USUSP, h.known_pending]

theorem updResCountersRow_realises (hph : jp.phase = some ph) (hr : Reservable ph) (b : Bool)
    (hb : jp.jStatus.reserve = !b) : ∃ p op,
    updResCountersRow jp.numHostPtr jp.maxNumProcessors jp.jStatus { jp.jStatus with reserve := b } = some (p, op) ∧
    Realises jp p (pendBy jp ph b - pendBy jp ph (!b)) fun c => heldBy ph b c - heldBy ph (!b) c := by
  have h := phase_reads (m := jp.jStatus.mask) hph
  cases b <;> rcases hr with rfl | rfl | rfl
  all_goals
    simp [updResCountersRow, h.known_SSUSP, h.known_USUSP, h.known_pending, hb, h.isStart, h.isPend]
    refine realises_shift ?_ ?_
    · intro c
      cases c <;> simp [heldBy, pendBy, tally, hostTally, JData.numHostPtr, entryAt, Entry.amount]
    · simp only [Option.some.injEq, reduceCtorEq, false_and, or_false, funext_iff]
      intro c
      cases c <;> rfl

theorem KeptBut.updResCounters (h : KeptBut j (entryAt jp ph jp.jStatus.reserve) s)
    (hph : jp.phase = some ph) (b : Bool) (hb : jp.jStatus.reserve = b ∨ Reservable ph) (hs : (entryAt jp ph b).Sound) :
    KeptBut j (entryAt jp ph b) (updResCounters j jp { jp.jStatus with reserve := b } s) := by
  have hr := phase_reads (m := jp.jStatus.mask) hph
  unfold OpenLava.updResCounters
  by_cases hsame : jp.jStatus.reserve = b
  · subst hsame
    split_ifs with hi
    · exact h
    · rw [updResCountersRow_same _ _ _ hph]
      exact h
  · have hres : Reservable ph := hb.resolve_left hsame
    have hf : jp.jStatus.reserve = !b := by cases b <;> simp_all
    rw [if_neg (by rcases hres with rfl | rfl | rfl <;> simp [hr.isPend, hr.isStart])]
    obtain ⟨p, op, hrow, hr⟩ := updResCountersRow_realises hph hres b hf
    rw [hf] at h
    have hmove := h.move hr hs
    rw [hrow]
    cases op with
    | keep => exact hmove
    | add => exact hmove.only ((Only.refl j _).proxyHRsvJLAddEntry j jp)
    | remove => exact hmove.only ((Only.refl j _).proxyHRsvJLRemoveEntry j jp)

end OpenLava

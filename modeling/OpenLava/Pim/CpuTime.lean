import OpenLava.Lib.Pim

/-!
# The CPU times of two scans

The PIM compares the times of a process with those of the scan before (`cpuTimeCheck` of `pim.main.c`).
-/

namespace OpenLava.Pim

open List

/-- A process in `cpuTimeCheck`; there is nothing where the record read does not exist. -/
def checkTime (clockTime : Int) (old_pbase : List LsPidInfo) (j : Nat) (p : LsPidInfo) : Option LsPidInfo :=
  if p.pid ∈ old_pbase.map LsPidInfo.pid then
    old_pbase[j]?.map fun old =>
      if p.utime + p.stime - (old.utime + old.stime) > 2 * clockTime then
        { p with utime := old.utime + clockTime.tdiv 2, stime := old.stime + clockTime.tdiv 2 }
      else p
  else if p.utime + p.stime > 2 * clockTime then some { p with utime := clockTime.tdiv 2, stime := clockTime.tdiv 2 }
  else some p

def cpuTimeCheck (lastUpdate now : Int) (old_pbase pbase : List LsPidInfo) : Option (List LsPidInfo) :=
  if lastUpdate = 0 then some pbase
  -- the data of every entry of the table is the address of `j`, which has this value after the loop that adds them
  else pbase.mapM (checkTime (now - lastUpdate) old_pbase old_pbase.length)

/-- The CPU time a process had in a scan; one that is new had none. -/
def cpuTime (table : List LsPidInfo) (pid : Int) : Int :=
  ((table.find? fun p => p.pid = pid).map fun p => p.utime + p.stime).getD 0

variable {p : LsPidInfo} {l : List LsPidInfo}

theorem checkTime_new (hc : 0 ≤ clockTime) (h : p.pid ∉ old.map LsPidInfo.pid) :
    ∃ p', checkTime clockTime old j p = some p' ∧ p'.pid = p.pid ∧
      p'.utime + p'.stime - cpuTime old p'.pid ≤ 2 * clockTime := by
  have hn : (old.find? fun o => o.pid = p.pid) = none :=
    find?_eq_none.mpr fun o ho heq => h (mem_map.mpr ⟨o, ho, of_decide_eq_true heq⟩)
  have hz : cpuTime old p.pid = 0 := by simp [cpuTime, hn]
  rw [checkTime, if_neg h]
  split_ifs with hmore
  · have hh : clockTime.tdiv 2 = clockTime / 2 := Int.tdiv_eq_ediv_of_nonneg hc
    exact ⟨_, rfl, rfl, by rw [hz, hh]; dsimp only; omega⟩
  · exact ⟨_, rfl, rfl, by rw [hz]; omega⟩

/-- The record behind the last one is read as soon as a process was there. -/
theorem checkTimes_iff (hc : 0 ≤ clockTime) :
    (∃ checked, l.mapM (checkTime clockTime old old.length) = some checked ∧
      checked.map LsPidInfo.pid = l.map LsPidInfo.pid ∧
      ∀ p ∈ checked, p.utime + p.stime - cpuTime old p.pid ≤ 2 * clockTime) ↔
    ∀ p ∈ l, p.pid ∉ old.map LsPidInfo.pid := by
  induction l with
  | nil => simp
  | cons p l ih =>
    rw [forall_mem_cons, ← ih, mapM_cons]
    constructor
    · rintro ⟨checked, h, hpids, ht⟩
      obtain ⟨p', hp', h⟩ := Option.bind_eq_some_iff.mp h
      obtain ⟨l', hl', h⟩ := Option.bind_eq_some_iff.mp h
      obtain rfl : p' :: l' = checked := Option.some.inj h
      refine ⟨fun hold => ?_, l', hl', (cons.inj hpids).2, fun q hq => ht q (mem_cons_of_mem _ hq)⟩
      rw [checkTime, if_pos hold] at hp'
      simp at hp'
    · rintro ⟨hn, l', hl', hpids, ht⟩
      obtain ⟨p', hp', hpid, htime⟩ := checkTime_new (j := old.length) hc hn
      refine ⟨p' :: l', by rw [hp', hl']; rfl, by simp [hpid, hpids], forall_mem_cons.mpr ⟨htime, ht⟩⟩

/-- The times are compared with those of the last scan, and only existing records, iff all processes are new. -/
theorem cpuTimeCheck_iff (lastUpdate now : Int) (old pbase : List LsPidInfo) (hlast : lastUpdate ≠ 0)
    (hnow : lastUpdate ≤ now) :
    (∃ checked, cpuTimeCheck lastUpdate now old pbase = some checked ∧
      checked.map LsPidInfo.pid = pbase.map LsPidInfo.pid ∧
      ∀ p ∈ checked, p.utime + p.stime - cpuTime old p.pid ≤ 2 * (now - lastUpdate)) ↔
    ∀ p ∈ pbase, p.pid ∉ old.map LsPidInfo.pid := by
  rw [cpuTimeCheck, if_neg hlast]
  exact checkTimes_iff (by omega)

theorem cpuTimeCheck_iff_new : ∃ checked, cpuTimeCheck 100 130 [] [{ pid := 7, utime := 99 }] = some checked ∧
    ∀ p ∈ checked, p.utime + p.stime - cpuTime [] p.pid ≤ 60 := by
  obtain ⟨checked, h, -, ht⟩ :=
    (cpuTimeCheck_iff 100 130 [] [{ pid := 7, utime := 99 }] (by decide) (by decide)).mpr (by simp)
  exact ⟨checked, h, ht⟩

/-- The record of a process is not looked at, but the one behind the last. -/
theorem cpuTimeCheck_outside : cpuTimeCheck 100 130 [{ pid := 7, utime := 5 }] [{ pid := 7, utime := 5 }] = none := by
  decide

end OpenLava.Pim

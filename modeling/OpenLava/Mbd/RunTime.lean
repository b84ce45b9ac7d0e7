import OpenLava.Mbd.Touches

/-!
# The run time of a job

`accumRunTime` is called before each change of the status, and for the running jobs also from time to time by the
scheduler.
-/

namespace OpenLava.RunTime

open Run (run Meets run_invariant)

/-- The fields that `accumRunTime` keeps, as `initJData` sets them. -/
structure Times where
  (runTime updStateTime resumeTime : Int := -1)
  deriving DecidableEq, Repr

/-- For a job with status `jStatus` -/
def accumRunTime (now : Int) (jStatus newStatus : Mask) (currentTime : Int) (t : Times) : Times :=
  let t :=
    if newStatus.run ∧ jStatus.pend then { t with runTime := 0 }
    else if newStatus.run ∧ jStatus.isSusp then { t with resumeTime := now }
    else if ¬ newStatus.isStart ∧ jStatus.isStart then { t with runTime := 0 }
    else if jStatus.run then { t with runTime := t.runTime + (currentTime - t.updStateTime) }
    else t
  { t with updStateTime := currentTime }

structure Timed where
  mbd : Mbd
  times : JobRef → Times := fun _ => {}

def Timed.mask (s : Timed) (j : JobRef) : Mask := (s.mbd.jobs j).jStatus.mask

inductive Event where
  /-- the variable `now` of the daemon, which stands still while it serves a request -/
  | jStatusChange (clock now : Int) (j : JobRef) (newStatus : Mask) (eventTime : Int)
  | update (now_disp : Int) -- the loop over the started jobs in `scheduleAndDispatchJobs`
  | handleRequeueJob (requeueTime : Int) (j : JobRef)

/-- A call of `accumRunTime` -/
structure Call where
  now : Int
  newStatus : Mask
  currentTime : Int
  deriving DecidableEq, Repr

/-- The call of `accumRunTime` for a job, if an event makes one. -/
def callOf (s : Timed) (j : JobRef) : Event → Option Call
  | .jStatusChange clock now i newStatus eventTime =>
    if i = j ∧ newStatus.known ≠ (s.mask j).known then
      some ⟨clock, newStatus, if eventTime ≠ 0 then eventTime else now⟩
    else none
  | .update now_disp =>
    if j ∈ (s.mbd.lists .SJL).entries ∧ (s.mask j).run then some ⟨now_disp, s.mask j, now_disp⟩ else none
  | .handleRequeueJob _ _ => none

def mbdStep (C : Config) : Event → Mbd → Mbd
  | .jStatusChange _ now j newStatus eventTime, s => OpenLava.jStatusChange C now j newStatus eventTime s
  | .update _, s => s
  | .handleRequeueJob requeueTime j, s => OpenLava.handleRequeueJob C requeueTime j s

def timedStep (C : Config) (e : Event) (s : Timed) : Timed where
  mbd := mbdStep C e s.mbd
  times j :=
    match callOf s j e with
    | some c => accumRunTime c.now (s.mask j) c.newStatus c.currentTime (s.times j)
    | none => s.times j

structure Update where
  time : Int
  status : Mask
  deriving DecidableEq, Repr

def ran : List Update → Int
  | u' :: u :: us => (if u.status.run then u'.time - u.time else 0) + ran (u :: us)
  | _ => 0

structure Seen where
  updates : List Update := []
  (startedFrom startedTo : Mask := {}) -- the statuses between which it was started
  before : Int := 0 -- `runTime` before that
  deriving DecidableEq, Repr

def Seen.record (old : Mask) (t : Times) (c : Call) (w : Seen) : Seen :=
  if ¬ c.newStatus.isStart then w
  else if old.isStart then { w with updates := ⟨c.currentTime, c.newStatus⟩ :: w.updates }
  else
    { updates := [⟨c.currentTime, c.newStatus⟩], startedFrom := old, startedTo := c.newStatus,
      before := t.runTime }

structure Watched extends Timed where
  seen : JobRef → Seen := fun _ => {}

def watchedStep (C : Config) (e : Event) (s : Watched) : Watched where
  toTimed := timedStep C e s.toTimed
  seen j :=
    match callOf s.toTimed j e with
    | some c => (s.seen j).record (s.mask j) (s.times j) c
    | none => s.seen j

def Proper : Event → Prop
  | .jStatusChange _ _ _ newStatus _ => newStatus.phase.isSome
  | _ => True

instance : DecidablePred Proper
  | .jStatusChange .. => inferInstanceAs (Decidable (_ = true))
  | .update _ => inferInstanceAs (Decidable True)
  | .handleRequeueJob .. => inferInstanceAs (Decidable True)

/-- `runTime` when the job had just been started. -/
def Seen.atStart (w : Seen) : Int := if w.startedTo.run ∧ w.startedFrom.pend then 0 else w.before

structure Tracks (m : Mask) (t : Times) (w : Seen) : Prop where
  phase : m.phase.isSome
  started : m.isStart → ∃ u us, w.updates = u :: us ∧ u.time = t.updStateTime ∧ u.status.run = m.run ∧
    t.runTime = w.atStart + ran w.updates

section

theorem accumRunTime_started (now cur : Int) (t : Times) (hm : m.phase.isSome) (hold : m.isStart) (hn : n.isStart) :
    (accumRunTime now m n cur t).runTime = t.runTime + if m.run then cur - t.updStateTime else 0 := by
  obtain ⟨ph, hph⟩ := Option.isSome_iff_exists.mp hm
  have hread := Mask.phase_reads hph
  have hpend : m.isPend = false := by
    rw [hread.isPend, decide_eq_false]
    rintro rfl
    rw [hread.isStart] at hold
    exact absurd hold (by decide)
  rw [Mask.isPend, Bool.or_eq_false_iff] at hpend
  have hs : m.run = true → m.isSusp = false := by
    intro hr
    rw [hread.run, decide_eq_true_eq] at hr
    subst hr
    rw [Mask.isSusp, hread.ssusp, hread.ususp, hpend.2]
    rfl
  unfold accumRunTime
  rw [if_neg (by simp [hpend.1])]
  by_cases hr : m.run = true
  · rw [if_neg (by simp [hs hr]), if_neg (by simp [hn]), if_pos hr, if_pos hr]
  · rw [if_neg (not_and_of_not_left _ (not_not.mpr hn)), if_neg hr, if_neg hr, add_zero]
    split <;> rfl

theorem accumRunTime_starts (now cur : Int) (t : Times) (hold : ¬ m.isStart) (hn : n.isStart) :
    (accumRunTime now m n cur t).runTime = if n.run ∧ m.pend then 0 else t.runTime := by
  have hr : m.run = false := by
    simp only [Mask.isStart, Bool.or_eq_true, not_or, Bool.not_eq_true] at hold
    exact hold.1.1
  unfold accumRunTime
  split
  · rfl
  · rw [if_neg (not_and_of_not_left _ (not_not.mpr hn)), hr]
    split <;> rfl

theorem Tracks.call (h : Tracks m t w) (hm' : m'.phase.isSome)
    (hr : m'.isStart → c.newStatus.isStart ∧ m'.run = c.newStatus.run) :
    Tracks m' (accumRunTime c.now m c.newStatus c.currentTime t) (w.record m t c) := by
  refine ⟨hm', fun hs => ?_⟩
  obtain ⟨hs', hsame⟩ := hr hs
  unfold Seen.record
  rw [if_neg (not_not.mpr hs')]
  by_cases hold : m.isStart
  · -- the time since the last update counts if the job was running
    obtain ⟨u, us, hus, ht, hsta, heq⟩ := h.started hold
    rw [if_pos hold]
    refine ⟨_, _, rfl, rfl, hsame.symm, ?_⟩
    rw [accumRunTime_started _ _ _ h.phase hold hs', heq, hus, ran, hsta, ht]
    simp only [Seen.atStart]
    ring
  · rw [if_neg hold]
    refine ⟨_, _, rfl, rfl, hsame.symm, ?_⟩
    rw [accumRunTime_starts _ _ _ hold hs']
    simp [Seen.atStart, ran]

end

section

/-- The status after a change: as it was, the new one, or pending for a chunk member. -/
theorem jStatusChange_mask (now : Int) (n : Mask) (eventTime : Int) (hne : n.known ≠ (s.jobs j).jStatus.mask.known) :
    ((jStatusChange C now j n eventTime s).jobs j).jStatus.mask = n ∨
      ((jStatusChange C now j n eventTime s).jobs j).jStatus.mask = .PEND ∨
      ((jStatusChange C now j n eventTime s).jobs j).jStatus.mask = .PSUSP := by
  have hmove : ∀ s1 : Mbd,
      ((moveJob C now j (s.jobs j).jStatus n (setStatus j n s1)).jobs j).jStatus.mask = n := by
    intro s1
    rw [((Touches.refl true false j (setStatus j n s1)).moveJob C now (s.jobs j).jStatus n).mask rfl, setStatus_mask]
  have hc : ∀ (logIt : Bool) (s2 : Mbd), (s2.jobs j).jStatus.mask = n →
      ((countJob C logIt j (s.jobs j).jStatus.mask n s2).jobs j).jStatus.mask = n ∨
      ((countJob C logIt j (s.jobs j).jStatus.mask n s2).jobs j).jStatus.mask = .PEND ∨
      ((countJob C logIt j (s.jobs j).jStatus.mask n s2).jobs j).jStatus.mask = .PSUSP := by
    intro logIt s2 hs2
    unfold countJob
    split
    · rw [updCounters_jobs]
      exact .inl hs2
    · split
      · rw [inPendJobList_jobs]
        simp only [modJob_job]
        split
        · exact .inr (.inl rfl)
        · exact .inr (.inr rfl)
      · exact .inl hs2
  unfold jStatusChange
  dsimp only
  rw [if_neg hne]
  split
  · rw [modJob_job]
    exact hc _ _ (hmove _)
  · exact hc _ _ (hmove _)

end

section

theorem Tracks.step (e : Event) (s : Watched) (j : JobRef) (h : Tracks (s.mask j) (s.times j) (s.seen j)) (he : Proper e) :
    Tracks ((watchedStep C e s).mask j) ((watchedStep C e s).times j) ((watchedStep C e s).seen j) := by
  have hq : callOf s.toTimed j e = none → (watchedStep C e s).mask j = s.mask j →
      Tracks ((watchedStep C e s).mask j) ((watchedStep C e s).times j) ((watchedStep C e s).seen j) := by
    intro hn hmask
    simp only [watchedStep, timedStep, hn] at hmask ⊢
    rw [hmask]
    exact h
  have hcall : ∀ c, callOf s.toTimed j e = some c → ((watchedStep C e s).mask j).phase.isSome →
      (((watchedStep C e s).mask j).isStart →
        c.newStatus.isStart ∧ ((watchedStep C e s).mask j).run = c.newStatus.run) →
      Tracks ((watchedStep C e s).mask j) ((watchedStep C e s).times j) ((watchedStep C e s).seen j) := by
    intro c hs hpha hr
    simp only [watchedStep, timedStep, hs]
    exact h.call hpha hr
  have hpen : ((watchedStep C e s).mask j = .PEND ∨ (watchedStep C e s).mask j = .PSUSP) →
      ((watchedStep C e s).mask j).phase.isSome ∧ ((watchedStep C e s).mask j).isStart = false := by
    rintro (hmask | hmask) <;> rw [hmask] <;> decide
  cases e with
  | jStatusChange clock now i n eventTime =>
    by_cases hij : i = j
    · subst hij
      by_cases hne : n.known = (s.mask i).known
      · refine hq (if_neg fun hc => hc.2 hne) ?_
        have hs : OpenLava.jStatusChange C now i n eventTime s.mbd = s.mbd := if_pos hne
        exact congrArg (fun mbd : Mbd => (mbd.jobs i).jStatus.mask) hs
      · rcases jStatusChange_mask (C := C) now n eventTime hne with hmask | hmask
        · have hmask' : (watchedStep C (.jStatusChange clock now i n eventTime) s).mask i = n := hmask
          refine hcall _ (if_pos ⟨rfl, hne⟩) ?_ ?_
          · rw [hmask']
            exact he
          · rw [hmask']
            exact fun hs => ⟨hs, rfl⟩
        · obtain ⟨hpha, hstop⟩ := hpen hmask
          exact hcall _ (if_pos ⟨rfl, hne⟩) hpha fun hs => absurd hs (Bool.not_eq_true _ ▸ hstop)
    · refine hq (if_neg fun hc => hij hc.1) ?_
      have ho := ((Touches.refl true true i s.mbd).jStatusChange C now n eventTime).other j fun he => hij he.symm
      exact congrArg (fun jp : JData => jp.jStatus.mask) ho
  | update now_disp =>
    by_cases hr : j ∈ (s.mbd.lists .SJL).entries ∧ (s.mask j).run
    · exact hcall _ (if_pos hr) h.phase fun hs => ⟨hs, rfl⟩
    · exact hq (if_neg hr) rfl
  | handleRequeueJob requeueTime i =>
    by_cases hij : i = j
    · subst hij
      have hmask := (handleRequeueJob_status (C := C) (j := i) (s := s.mbd) requeueTime).imp (congrArg JStatus.mask)
        (congrArg JStatus.mask)
      obtain ⟨hpha, hstop⟩ := hpen hmask
      exact ⟨hpha, fun hs => absurd hs (Bool.not_eq_true _ ▸ hstop)⟩
    · refine hq rfl ?_
      have ho := ((Touches.refl true true i s.mbd).handleRequeueJob C requeueTime).other j fun he => hij he.symm
      exact congrArg (fun jp : JData => jp.jStatus.mask) ho

/-- The job was started from PEND to RUN, or with a run time of zero. -/
def Seen.FromZero (w : Seen) : Prop := (w.startedTo.run ∧ w.startedFrom.pend) ∨ w.before = 0
  deriving Decidable

theorem Seen.atStart_eq_zero (w : Seen) : w.atStart = 0 ↔ w.FromZero := by
  unfold Seen.atStart Seen.FromZero
  split
  · exact ⟨fun _ => .inl ‹_›, fun _ => rfl⟩
  · exact ⟨.inr, fun h => h.resolve_left ‹_›⟩

/-- The run time is the time since the last start iff the account was started from zero. -/
theorem runTime_eq_ran_iff (s₀ : Watched) (j : JobRef) (hphase : (s₀.mask j).phase.isSome)
    (hpend : (s₀.mask j).isStart = false) (events : List Event)
    (hevents : Meets (watchedStep C) (fun e _ => Proper e) events s₀)
    (hstart : ((run (watchedStep C) events s₀).mask j).isStart) :
    ((run (watchedStep C) events s₀).times j).runTime = ran ((run (watchedStep C) events s₀).seen j).updates ↔
      ((run (watchedStep C) events s₀).seen j).FromZero := by
  have ht := run_invariant (I := fun s : Watched => Tracks (s.mask j) (s.times j) (s.seen j))
    (fun e s h he => Tracks.step (C := C) e s j h he) events s₀
    ⟨hphase, fun hstart => absurd hstart (Bool.not_eq_true _ ▸ hpend)⟩ hevents
  obtain ⟨-, -, -, -, -, heq⟩ := ht.started hstart
  rw [heq, add_eq_right]
  exact Seen.atStart_eq_zero _

end

def submitted : Watched := { mbd := run (OpenLava.step {}) [.newJob 1 false 0 1 0 { queue := 0 }] .blank }

def resumed : List Event :=
  [.jStatusChange 10 10 0 .RUN 0, .update 20, .jStatusChange 25 25 0 .SSUSP 0, .jStatusChange 40 40 0 .RUN 0, .update 50]

theorem runTime_eq_ran_resumed : ((run (watchedStep {}) resumed submitted).times 0).runTime = 25 ∧
    ran ((run (watchedStep {}) resumed submitted).seen 0).updates = 25 ∧
    (((run (watchedStep {}) resumed submitted).times 0).runTime =
        ran ((run (watchedStep {}) resumed submitted).seen 0).updates ↔
      ((run (watchedStep {}) resumed submitted).seen 0).FromZero) :=
  ⟨by decide, by decide, runTime_eq_ran_iff submitted 0 (by decide) (by decide) resumed (by decide) (by decide)⟩

/-- The job is stopped while it is pending, and is then reported to run. -/
def stoppedPending : List Event := [.jStatusChange 5 5 0 .PSUSP 0, .jStatusChange 10 10 0 .RUN 0, .update 20]

/-- The account goes on from the -1 of a new job. -/
theorem runTime_stoppedPending : ((run (watchedStep {}) stoppedPending submitted).mask 0).isStart ∧
    ((run (watchedStep {}) stoppedPending submitted).times 0).runTime = 9 ∧
    ran ((run (watchedStep {}) stoppedPending submitted).seen 0).updates = 10 := by
  decide

end OpenLava.RunTime

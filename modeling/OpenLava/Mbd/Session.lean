import OpenLava.Mbd.Touches

/-!
# Scheduling sessions

A session of `scheduleAndDispatchJobs` begins with a list of references to the pending jobs, `jRefList`, and ends when
each has been tried. In between the function may return early; the stages that are done are in `mSchedStage`, but `jPtr`
with the job to be tried is local to a call.
-/

namespace OpenLava.Session

open List

/-- `mSchedStage`; all bits are clear between two sessions. -/
structure Stage where
  init : Bool := false -- `M_STAGE_INIT`
  gotLoad : Bool := false -- `M_STAGE_GOT_LOAD`
  resumeSusp : Bool := false -- `M_STAGE_RESUME_SUSP`
  lsbCand : Bool := false -- `M_STAGE_LSB_CAND`
  queCand : Bool := false -- `M_STAGE_QUE_CAND`
  deriving DecidableEq, Repr

/-- The daemon with the static variables; `jRefList` is read from its back. -/
structure Sched where
  mbd : Mbd
  mSchedStage : Stage := {}
  jRefList : List JobRef := []
  nextSchedQ : List QRef := [] -- the queues from `nextSchedQ` on
  (numLsbUsable numQUsable : Int := 0)

/-- What `jPtr` points to: a job, the head of a list after a loop over it, or nothing known. -/
inductive JobVar where
  | job (j : JobRef)
  | listHead (l : ListNo)
  | uninitialized
  deriving DecidableEq, Repr

/-- `enum dispatchAJobReturnCode` -/
inductive DispRet where
  | DISP_OK | DISP_FAIL | DISP_RESERVE | DISP_NO_JOB | DISP_TIME_OUT
  deriving DecidableEq, Repr

/-- What `scheduleAJob` and `XORDispatch` did, and whether `STAY_TOO_LONG` holds then. -/
structure Visit where
  dispRet : DispRet
  tooLong : Bool := false
  mbd : Mbd

/-- Where `STAY_TOO_LONG` is asked before the jobs are tried. -/
inductive Point where
  | gotLoad | resumeSusp | lsbCand
  | queue (qp : QRef)
  deriving DecidableEq, Repr

structure Env where
  now : Int := 0
  queueHoldTime : QRef → Int := fun _ => 0 -- `qPtr->slotHoldTime`
  slotHoldTime : JobRef → Int := fun _ => 0 -- `jpbw->slotHoldTime`
  loadDue : Bool := false -- the load information is older than `freshPeriod`
  loadOk : Bool := true -- `getLsbHostLoad` succeeds
  sharedDue : Bool := false -- the shared resources are to be counted again
  tooLong : Point → Bool := fun _ => false
  tryResume : Mbd → Mbd := id
  getLsbUsable : Int := 1
  getQUsable : QRef → Int := fun _ => 1
  visit : Nat → JobVar → Mbd → Visit -- the round of the call, the variable and the state to what happens with the job

/-- The queues in their order, and `Q_ATTRIB_ROUND_ROBIN`. -/
structure Queues where
  qDataList : List QRef
  roundRobin : QRef → Bool := fun _ => false

section

def dropReserveTime (jp : JData) : JData := { jp with reserveTime := 0 }

/-- `checkSlotReserve`; `continueSched` is false if the reservation was too old. -/
def checkSlotReserve (env : Env) (j : JobRef) (s : Mbd) : Mbd × Bool :=
  let jp := s.jobs j
  let tooOld := fun holdTime : Int => holdTime > 0 ∧ jp.reserveTime > 0 ∧ env.now - jp.reserveTime > holdTime
  if ¬ jp.jStatus.reserve then (s.modJob j dropReserveTime, true)
  else if tooOld (env.queueHoldTime jp.qPtr) ∨ tooOld (env.slotHoldTime j) then
    ((freeReserveSlots j s).modJob j dropReserveTime, false)
  else (freeReserveSlots j s, true)

/-- One job in the loop that fills `jRefList`. -/
def addRef (env : Env) (acc : Mbd × List JobRef) (j : JobRef) : Mbd × List JobRef :=
  let (mbd, continueSched) := checkSlotReserve env j acc.1
  (mbd, if continueSched then acc.2 ++ [j] else acc.2)

def candidates (s : Mbd) : List JobRef := (s.lists .MJL).entries.reverse ++ (s.lists .PJL).entries.reverse

def beginSession (Q : Queues) (env : Env) (s : Sched) : Sched :=
  let (mbd, refs) := (candidates s.mbd).foldl (addRef env) (s.mbd, [])
  { s with mbd, jRefList := s.jRefList ++ refs, nextSchedQ := Q.qDataList, mSchedStage := { s.mSchedStage with init := true } }

/-- The queues that are left, the number of usable hosts, and whether it took too long. -/
def queueLoop (env : Env) (s : Mbd) : List QRef → Nat → Int → List QRef × Int × Bool
  | [], _, numQUsable => ([], numQUsable, false)
  | qp :: rest, loopCount, numQUsable =>
    if (s.queues qp).count .numPEND = 0 ∧ (s.queues qp).count .numRESERVE = 0 then queueLoop env s rest loopCount numQUsable
    else if env.getQUsable qp ≤ 0 then queueLoop env s rest loopCount numQUsable
    else if (loopCount + 1) % 10 = 0 ∧ env.tooLong (.queue qp) then (rest, numQUsable + env.getQUsable qp, true)
    else queueLoop env s rest (loopCount + 1) (numQUsable + env.getQUsable qp)

def resetSchedulerSession (s : Sched) : Sched := { s with mSchedStage := {}, jRefList := [] }

/-- A call on its way: `jPtr` and the state, unless it has returned. -/
abbrev Progress := Except (Int × Sched) (JobVar × Sched)

def getLoad (env : Env) (p : JobVar × Sched) : Progress :=
  let (jPtr, s) := p
  if ¬ s.mSchedStage.gotLoad ∧ env.loadDue ∧ ¬ env.loadOk then .error (-1, s)
  else
    let jPtr := if ¬ s.mSchedStage.gotLoad ∧ env.loadDue then .listHead .SJL else jPtr
    let s := { s with mSchedStage := { s.mSchedStage with gotLoad := true } }
    if env.tooLong .gotLoad then .error (-1, s)
    else .ok (if env.sharedDue then .listHead .SJL else jPtr, s)

def resumeJobs (env : Env) (p : JobVar × Sched) : Progress :=
  let (jPtr, s) := p
  let s := if s.mSchedStage.resumeSusp then s
    else { s with mbd := env.tryResume s.mbd, mSchedStage := { s.mSchedStage with resumeSusp := true } }
  if env.tooLong .resumeSusp then .error (-1, s) else .ok (jPtr, s)

def usableHosts (env : Env) (p : JobVar × Sched) : Progress :=
  let (jPtr, s) := p
  let s := if s.mSchedStage.lsbCand then s
    else { s with numLsbUsable := env.getLsbUsable, mSchedStage := { s.mSchedStage with lsbCand := true } }
  if s.numLsbUsable ≤ 0 then .error (0, resetSchedulerSession { s with numLsbUsable := 0, numQUsable := 0 })
  else if env.tooLong .lsbCand then .error (-1, s)
  else .ok (jPtr, s)

def usableQueues (Q : Queues) (env : Env) (p : JobVar × Sched) : Progress :=
  let (jPtr, s) := p
  if s.mSchedStage.queCand then .ok (jPtr, s)
  else
    let (rest, numQUsable, tooLong) :=
      queueLoop env s.mbd s.nextSchedQ 0 (if s.nextSchedQ = Q.qDataList then 0 else s.numQUsable)
    if tooLong then .error (-1, { s with nextSchedQ := rest, numQUsable })
    else .ok (jPtr, { s with numQUsable, mSchedStage := { s.mSchedStage with queCand := true } })

def someUsable (p : JobVar × Sched) : Progress :=
  let (jPtr, s) := p
  if s.numQUsable ≤ 0 then .error (0, resetSchedulerSession { s with numQUsable := 0 }) else .ok (jPtr, s)

def enter (Q : Queues) (env : Env) (s : Sched) : JobVar × Sched :=
  if s.mSchedStage = {} then (.listHead .PJL, beginSession Q env s) else (.uninitialized, s)

/-- `scheduleAndDispatchJobs` up to the jobs. -/
def beforeJobs (Q : Queues) (env : Env) (s : Sched) : Progress := do
  let p ← getLoad env (enter Q env s)
  let p ← resumeJobs env p
  let p ← usableHosts env p
  let p ← usableQueues Q env p
  someUsable p

end

/-- The job of the user with the fewest running jobs so far; `min` starts at `INT32_MAX`. -/
def fewest (numRUN : Int) (j : JobRef) : Option (Int × JobRef) → Int × JobRef
  | none => (numRUN, j)
  | some (min, jR0) => if numRUN < min then (numRUN, j) else (min, jR0)

/-- The first job, or the first whose user has the fewest running jobs. The loop also asserts that the user of each job it
looks at has pending ones (`assertLoop`). -/
def pickLoop (Q : Queues) (s : Mbd) : Option (Int × JobRef) → List JobRef → Option JobRef
  | _, [] => none
  | best, j :: rest =>
    let jp := s.jobs j
    let priority := fun i => (s.queues (s.jobs i).qPtr).priority
    if ¬ Q.roundRobin jp.qPtr then some j
    else
      let best := fewest ((s.users jp.uPtr).count .numRUN) j best
      match rest with
      | [] => some best.2
      | i :: _ => if priority j ≠ priority i then some best.2 else pickLoop Q s (some best) rest

def pickJob (Q : Queues) (s : Mbd) (jRefList : List JobRef) : Option JobRef := pickLoop Q s none jRefList

/-- A call of `scheduleAJob`: whether its job was taken in this round, and pends. -/
structure Handover where
  jPtr : JobVar
  (taken pending : Bool)
  deriving DecidableEq, Repr

/-- What a call leaves, and the jobs it gave to `scheduleAJob`. -/
structure Called where
  ret : Int
  s : Sched
  handed : List Handover := []
  completed : Bool := false

def takeRef (Q : Queues) (jPtr : JobVar) (s : Sched) : Handover × List JobRef :=
  match pickJob Q s.mbd s.jRefList with
  | some j => (⟨.job j, true, (s.mbd.jobs j).jStatus.mask.isPend⟩, s.jRefList.erase j)
  | none => (⟨jPtr, false, match jPtr with | .job j => (s.mbd.jobs j).jStatus.mask.isPend | _ => false⟩, s.jRefList)

/-- The loop at `again`, in at most `fuel` rounds. At its end `disp_clean` ends the session. -/
def again (Q : Queues) (env : Env) : Nat → Nat → JobVar → Sched → Called
  | 0, _, _, s => ⟨0, s, [], false⟩
  | fuel + 1, round, jPtr, s =>
    let (h, jRefList) := takeRef Q jPtr s
    let v := env.visit round h.jPtr s.mbd
    let s := { s with mbd := v.mbd, jRefList }
    if v.dispRet = .DISP_TIME_OUT ∨ (v.dispRet = .DISP_FAIL ∧ v.tooLong) then ⟨-1, s, [h], false⟩
    else if s.jRefList ≠ [] then
      let rest := again Q env fuel (round + 1) h.jPtr s
      { rest with handed := h :: rest.handed }
    else ⟨0, { s with mSchedStage := {} }, [h], true⟩

def scheduleAndDispatchJobs (Q : Queues) (env : Env) (s : Sched) : Called :=
  match beforeJobs Q env s with
  | .error (ret, s) => { ret, s }
  | .ok (jPtr, s) => again Q env (s.jRefList.length + 1) 0 jPtr s

section

variable {env : Env} {s s' : Sched} {p : JobVar × Sched}

def Progress.Ends (E : Sched → Prop) (I : Sched → Prop) : Progress → Prop
  | .error e => E e.2
  | .ok p => I p.2

theorem Progress.Ends.bind {r : Progress} {f : JobVar × Sched → Progress} (h : r.Ends E I)
    (hf : ∀ p, I p.2 → (f p).Ends E J) : Progress.Ends E J (r >>= f) := by
  cases r with
  | error e => exact h
  | ok p => exact hf p h

structure Env.Calm (env : Env) : Prop where
  visit : ∀ round jPtr s j, jPtr ≠ .job j → (s.jobs j).jStatus.mask.isPend → ((env.visit round jPtr s).mbd.jobs j).jStatus.mask.isPend
  tryResume : ∀ s j, (s.jobs j).jStatus.mask.isPend → ((env.tryResume s).jobs j).jStatus.mask.isPend

structure Goes (env : Env) (s0 s : Sched) : Prop where
  refs : s.jRefList = s0.jRefList
  stage : s.mSchedStage ≠ {}
  pend : env.Calm → ∀ j, (s0.mbd.jobs j).jStatus.mask.isPend → (s.mbd.jobs j).jStatus.mask.isPend

def Left (env : Env) (s0 s : Sched) : Prop := Goes env s0 s ∨ s.jRefList = [] ∧ s.mSchedStage = {}

theorem left_reset (env : Env) (s0 s : Sched) : Left env s0 (resetSchedulerSession s) := .inr ⟨rfl, rfl⟩

theorem getLoad_refs (h : Goes env s p.2) : (getLoad env p).Ends (Left env s) (Goes env s) := by
  obtain ⟨jPtr, s'⟩ := p
  have hs : Goes env s { s' with mSchedStage := { s'.mSchedStage with gotLoad := true } } := ⟨h.refs, by simp, h.pend⟩
  unfold getLoad
  dsimp only
  split
  · exact .inl h
  · split
    · exact .inl hs
    · exact hs

theorem resumeJobs_refs (h : Goes env s p.2) : (resumeJobs env p).Ends (Left env s) (Goes env s) := by
  obtain ⟨jPtr, s'⟩ := p
  have hs : Goes env s (if s'.mSchedStage.resumeSusp then s'
      else { s' with mbd := env.tryResume s'.mbd, mSchedStage := { s'.mSchedStage with resumeSusp := true } }) := by
    split
    · exact h
    · exact ⟨h.refs, by simp, fun hc j hj => hc.tryResume _ _ (h.pend hc j hj)⟩
  unfold resumeJobs
  dsimp only
  split
  · exact .inl hs
  · exact hs

theorem usableHosts_refs (h : Goes env s p.2) : (usableHosts env p).Ends (Left env s) (Goes env s) := by
  obtain ⟨jPtr, s'⟩ := p
  have hs : Goes env s (if s'.mSchedStage.lsbCand then s'
      else { s' with numLsbUsable := env.getLsbUsable, mSchedStage := { s'.mSchedStage with lsbCand := true } }) := by
    split
    · exact h
    · exact ⟨h.refs, by simp, h.pend⟩
  unfold usableHosts
  dsimp only
  generalize (if s'.mSchedStage.lsbCand then s' else _ : Sched) = s1 at hs ⊢
  split
  · exact left_reset _ _ _
  · split
    · exact .inl hs
    · exact hs

theorem usableQueues_refs (h : Goes env s p.2) : (usableQueues Q env p).Ends (Left env s) (Goes env s) := by
  obtain ⟨jPtr, s'⟩ := p
  unfold usableQueues
  dsimp only
  split
  · exact h
  · generalize queueLoop env s'.mbd s'.nextSchedQ 0 (if s'.nextSchedQ = Q.qDataList then 0 else s'.numQUsable) = r
    split
    · exact .inl ⟨h.refs, h.stage, h.pend⟩
    · exact ⟨h.refs, by simp, h.pend⟩

theorem someUsable_refs (h : Goes env s p.2) : (someUsable p).Ends (Left env s) (Goes env s) := by
  unfold someUsable
  dsimp only
  split
  · exact left_reset _ _ _
  · exact h

theorem enter_goes (Q : Queues) (env : Env) (s : Sched) : Goes env (enter Q env s).2 (enter Q env s).2 := by
  refine ⟨rfl, ?_, fun _ _ h => h⟩
  unfold enter
  split
  · simp [beginSession]
  · assumption

theorem beforeJobs_refs (Q : Queues) (env : Env) (s : Sched) : (beforeJobs Q env s).Ends
    (Left env (enter Q env s).2) (Goes env (enter Q env s).2) :=
  (getLoad_refs (enter_goes Q env s)).bind fun _ h => (resumeJobs_refs h).bind fun _ h =>
    (usableHosts_refs h).bind fun _ h => (usableQueues_refs h).bind fun _ h => someUsable_refs h

end

section

theorem fewest_mem (numRUN : Int) (j : JobRef) (best : Option (Int × JobRef)) :
    (fewest numRUN j best).2 = j ∨ ∃ min, best = some (min, (fewest numRUN j best).2) := by
  rcases best with _ | ⟨min, jR0⟩
  · exact .inl rfl
  · unfold fewest
    dsimp only
    split
    · exact .inl rfl
    · exact .inr ⟨min, rfl⟩

theorem pickLoop_mem (h : pickLoop Q s best jobs = some j) : j ∈ jobs ∨ ∃ min, best = some (min, j) := by
  induction jobs generalizing best with
  | nil => cases h
  | cons i rest ih =>
    have hb := fewest_mem ((s.users (s.jobs i).uPtr).count .numRUN) i best
    have hf : (fewest ((s.users (s.jobs i).uPtr).count .numRUN) i best).2 = j →
        j ∈ i :: rest ∨ ∃ min, best = some (min, j) := by
      intro hj
      rw [hj] at hb
      rcases hb with rfl | hmin
      · exact .inl mem_cons_self
      · exact .inr hmin
    unfold pickLoop at h
    dsimp only at h
    split at h
    · obtain rfl := Option.some.inj h
      exact .inl mem_cons_self
    · split at h
      · exact hf (Option.some.inj h)
      · split at h
        · exact hf (Option.some.inj h)
        · rcases ih h with hmem | ⟨min, hmin⟩
          · exact .inl (mem_cons_of_mem _ hmem)
          · exact hf (congrArg Prod.snd (Option.some.inj hmin))

theorem pickLoop_isSome (Q : Queues) (s : Mbd) (best : Option (Int × JobRef)) (hne : jobs ≠ []) :
    (pickLoop Q s best jobs).isSome := by
  induction jobs generalizing best with
  | nil => exact absurd rfl hne
  | cons i rest ih =>
    unfold pickLoop
    dsimp only
    split
    · rfl
    · split
      · rfl
      · split
        · rfl
        · exact ih _ (by simp)

theorem takeRef_of_ne (Q : Queues) (jPtr : JobVar) (hne : x.jRefList ≠ []) : ∃ j ∈ x.jRefList,
    takeRef Q jPtr x = (⟨.job j, true, (x.mbd.jobs j).jStatus.mask.isPend⟩, x.jRefList.erase j) := by
  obtain ⟨j, hj⟩ := Option.isSome_iff_exists.mp (pickLoop_isSome Q x.mbd none hne)
  refine ⟨j, (pickLoop_mem hj).resolve_right (by rintro ⟨_, h⟩; cases h), ?_⟩
  unfold takeRef pickJob
  rw [hj]

theorem takeRef_of_nil (Q : Queues) (jPtr : JobVar) (hn : x.jRefList = []) :
    (takeRef Q jPtr x).1.taken = false ∧ (takeRef Q jPtr x).2 = [] := by
  unfold takeRef pickJob
  rw [hn]
  exact ⟨rfl, rfl⟩

end

section

variable {s : Sched} {fuel round : Nat}

def JobVar.job? : JobVar → Option JobRef
  | .job j => some j
  | _ => none

def takenJobs (handed : List Handover) : List JobRef := handed.filterMap fun h => if h.taken then h.jPtr.job? else none

theorem takenJobs_append (l l' : List Handover) : takenJobs (l ++ l') = takenJobs l ++ takenJobs l' :=
  filterMap_append

/-- The references handed over and those left are those it began with. -/
structure Hands (s : Sched) (out : Called) : Prop where
  perm : (takenJobs out.handed ++ out.s.jRefList).Perm s.jRefList
  ended : out.completed = true → out.s.jRefList = [] ∧ out.s.mSchedStage = {}
  goes : out.completed = false → out.s.mSchedStage = s.mSchedStage
  taken : (∀ h ∈ out.handed, h.taken = true) ↔ s.jRefList ≠ []

theorem again_hands (Q : Queues) (env : Env) (hf : s.jRefList.length < fuel) :
    Hands s (again Q env fuel round jPtr s) := by
  induction fuel generalizing round jPtr s with
  | zero => omega
  | succ fuel ih =>
    have hr : (takenJobs [(takeRef Q jPtr s).1] ++ (takeRef Q jPtr s).2).Perm s.jRefList ∧
        ((takeRef Q jPtr s).1.taken = true ↔ s.jRefList ≠ []) ∧
        ((takeRef Q jPtr s).2 ≠ [] → s.jRefList ≠ [] ∧ (takeRef Q jPtr s).2.length < fuel) := by
      by_cases hne : s.jRefList = []
      · obtain ⟨ht, hrest⟩ := takeRef_of_nil Q jPtr hne
        rw [hrest, hne]
        simp [takenJobs, ht]
      · obtain ⟨j, hj, htake⟩ := takeRef_of_ne Q jPtr hne
        rw [htake]
        refine ⟨(perm_cons_erase hj).symm, by simp [hne], fun _ => ⟨hne, ?_⟩⟩
        have := length_erase_of_mem hj
        have := length_pos_of_mem hj
        dsimp only
        omega
    unfold again
    generalize takeRef Q jPtr s = t at hr ⊢
    obtain ⟨h, rest⟩ := t
    obtain ⟨hperm, ht, hrest⟩ := hr
    dsimp only at hperm ht hrest ⊢
    split
    · exact ⟨hperm, nofun, fun _ => rfl, by simpa using ht⟩
    · split
      · next hmore =>
        obtain ⟨hne, hl⟩ := hrest hmore
        have ho := @ih { s with mbd := (env.visit round h.jPtr s.mbd).mbd, jRefList := rest } (round + 1) h.jPtr hl
        refine ⟨?_, ho.ended, ho.goes, iff_of_true ?_ hne⟩
        · rw [← singleton_append, takenJobs_append, append_assoc]
          exact (ho.perm.append_left _).trans hperm
        · exact forall_mem_cons.mpr ⟨ht.mpr hne, ho.taken.mpr hmore⟩
      · next hmore =>
        rw [ne_eq, not_not] at hmore
        exact ⟨hperm, fun _ => ⟨hmore, rfl⟩, nofun, by simpa using ht⟩

def RefsPend (s : Sched) : Prop := ∀ j ∈ s.jRefList, (s.mbd.jobs j).jStatus.mask.isPend

theorem again_pending (Q : Queues) (hc : env.Calm) (hnd : s.jRefList.Nodup) (hpend : RefsPend s) :
    (∀ h ∈ (again Q env fuel round jPtr s).handed, h.taken → h.pending) ∧ RefsPend (again Q env fuel round jPtr s).s := by
  induction fuel generalizing round jPtr s with
  | zero => exact ⟨nofun, hpend⟩
  | succ fuel ih =>
    have hr : ((takeRef Q jPtr s).1.taken → (takeRef Q jPtr s).1.pending) ∧ (takeRef Q jPtr s).2.Nodup ∧
        RefsPend { s with mbd := (env.visit round (takeRef Q jPtr s).1.jPtr s.mbd).mbd, jRefList := (takeRef Q jPtr s).2 } := by
      by_cases hne : s.jRefList = []
      · obtain ⟨ht, hrest⟩ := takeRef_of_nil Q jPtr hne
        rw [hrest, ht]
        exact ⟨nofun, nodup_nil, nofun⟩
      · obtain ⟨j, hj, ht⟩ := takeRef_of_ne Q jPtr hne
        rw [ht]
        refine ⟨fun _ => hpend j hj, hnd.erase j, fun i hi => ?_⟩
        obtain ⟨hij, hi⟩ := hnd.mem_erase_iff.mp hi
        exact hc.visit _ _ _ _ (fun h => hij (JobVar.job.inj h).symm) (hpend i hi)
    unfold again
    generalize takeRef Q jPtr s = t at hr ⊢
    obtain ⟨hf, hnd', hpend'⟩ := hr
    dsimp only at hf hnd' hpend' ⊢
    split
    · exact ⟨by simpa using hf, hpend'⟩
    · split
      · obtain ⟨hh, hr⟩ := ih hnd' hpend'
        exact ⟨forall_mem_cons.mpr ⟨hf, hh⟩, hr⟩
      · exact ⟨by simpa using hf, hpend'⟩

end

section

theorem checkSlotReserve_mask (env : Env) (j : JobRef) (s : Mbd) (i : JobRef) :
    ((checkSlotReserve env j s).1.jobs i).jStatus.mask = (s.jobs i).jStatus.mask := by
  have ht : Touches false false j s (checkSlotReserve env j s).1 := by
    have hr := Touches.refl false false j s
    unfold checkSlotReserve
    dsimp only
    split
    · exact hr.modJob dropReserveTime fun _ => ⟨rfl, rfl⟩
    · split
      · exact hr.freeReserveSlots.modJob dropReserveTime fun _ => ⟨rfl, rfl⟩
      · exact hr.freeReserveSlots
  by_cases hi : i = j
  · subst hi
    exact ht.mask rfl
  · rw [ht.other i hi]

theorem addRefs_mask (env : Env) (jobs : List JobRef) (acc : Mbd × List JobRef) (i : JobRef) :
    ((jobs.foldl (addRef env) acc).1.jobs i).jStatus.mask = (acc.1.jobs i).jStatus.mask := by
  induction jobs generalizing acc with
  | nil => rfl
  | cons j jobs ih => exact (ih _).trans (checkSlotReserve_mask env j acc.1 i)

theorem addRefs_sublist (env : Env) (jobs : List JobRef) (acc : Mbd × List JobRef) :
    ∃ refs, refs.Sublist jobs ∧ (jobs.foldl (addRef env) acc).2 = acc.2 ++ refs := by
  induction jobs generalizing acc with
  | nil => exact ⟨[], .slnil, by simp⟩
  | cons j jobs ih =>
    obtain ⟨refs, hs, hf⟩ := ih (addRef env acc j)
    rw [foldl_cons, hf]
    unfold addRef
    dsimp only
    split
    · exact ⟨j :: refs, hs.cons_cons j, by simp⟩
    · exact ⟨refs, hs.cons j, rfl⟩

theorem beginSession_refs (Q : Queues) (env : Env) (s : Sched) :
    ∃ refs, refs.Sublist (candidates s.mbd) ∧ (beginSession Q env s).jRefList = s.jRefList ++ refs := by
  obtain ⟨refs, hs, hf⟩ := addRefs_sublist env (candidates s.mbd) (s.mbd, [])
  refine ⟨refs, hs, ?_⟩
  unfold beginSession
  dsimp only
  rw [hf, nil_append]

theorem beginSession_mask (Q : Queues) (env : Env) (s : Sched) (j : JobRef) :
    ((beginSession Q env s).mbd.jobs j).jStatus.mask = (s.mbd.jobs j).jStatus.mask :=
  addRefs_mask env (candidates s.mbd) (s.mbd, []) j

end

/-- The references placed last, the jobs handed over since, and whether it is over. -/
structure SchedRun where
  s : Sched
  placed : List JobRef := []
  handed : List Handover := []
  completed : Bool := false

inductive Event where
  | call (env : Env)
  | other (f : Mbd → Mbd)

def step (Q : Queues) : Event → SchedRun → SchedRun
  | .call env, x =>
    let out := scheduleAndDispatchJobs Q env x.s
    if x.s.mSchedStage = {} then
      { s := out.s, placed := (enter Q env x.s).2.jRefList, handed := out.handed, completed := out.completed }
    else { s := out.s, placed := x.placed, handed := x.handed ++ out.handed, completed := out.completed }
  | .other f, x => { x with s := { x.s with mbd := f x.s.mbd } }

/-- No job is twice in the lists of pending jobs when a session begins. -/
def Fair : Event → SchedRun → Prop
  | .call _, x => x.s.mSchedStage = {} → (candidates x.s.mbd).Nodup
  | .other _, _ => True

section

variable {Q : Queues} {env : Env} {x : SchedRun}

/-- A call goes on with the references it enters with, or gives up the session. -/
theorem call_hands (Q : Queues) (env : Env) (s : Sched) : let out := scheduleAndDispatchJobs Q env s
    ((takenJobs out.handed ++ out.s.jRefList).Perm (enter Q env s).2.jRefList ∧
      (out.completed = true → out.s.jRefList = [] ∧ out.s.mSchedStage = {}) ∧
      (out.completed = false → out.s.mSchedStage ≠ {})) ∨
    (out.handed = [] ∧ out.completed = false ∧ out.s.jRefList = [] ∧ out.s.mSchedStage = {}) := by
  have hb := beforeJobs_refs Q env s
  unfold scheduleAndDispatchJobs
  cases hj : beforeJobs Q env s with
  | error e =>
    rw [hj] at hb
    rcases hb with hg | hr
    · exact .inl ⟨by rw [← hg.refs]; exact .refl _, nofun, fun _ => hg.stage⟩
    · exact .inr ⟨rfl, rfl, hr⟩
  | ok p =>
    rw [hj] at hb
    obtain ⟨jPtr, s'⟩ := p
    have hh := @again_hands s' (s'.jRefList.length + 1) 0 jPtr Q env (by omega)
    exact .inl ⟨hb.refs ▸ hh.perm, hh.ended, fun h => hh.goes h ▸ hb.stage⟩

/-- The jobs handed over and the references left are those placed, unless it was given up. -/
structure Inv (x : SchedRun) : Prop where
  idle : x.s.mSchedStage = {} → x.s.jRefList = []
  nodup : x.placed.Nodup
  sub : (takenJobs x.handed ++ x.s.jRefList).Subperm x.placed
  going : x.s.mSchedStage ≠ {} → (takenJobs x.handed ++ x.s.jRefList).Perm x.placed
  done : x.completed = true → (takenJobs x.handed).Perm x.placed

theorem call_inv {placed : List JobRef} {handed : List Handover} (hnd : placed.Nodup)
    (hperm : (takenJobs handed ++ (enter Q env s).2.jRefList).Perm placed) :
    Inv ⟨(scheduleAndDispatchJobs Q env s).s, placed, handed ++ (scheduleAndDispatchJobs Q env s).handed,
      (scheduleAndDispatchJobs Q env s).completed⟩ := by
  obtain ⟨hhan, he, hg⟩ | ⟨hh, hc, hr, hs⟩ := call_hands Q env s
  · have ha : (takenJobs (handed ++ (scheduleAndDispatchJobs Q env s).handed) ++
        (scheduleAndDispatchJobs Q env s).s.jRefList).Perm placed := by
      rw [takenJobs_append, append_assoc]
      exact (hhan.append_left _).trans hperm
    refine ⟨fun hs => ?_, hnd, ha.subperm, fun _ => ha, fun hd => ?_⟩
    · cases hc : (scheduleAndDispatchJobs Q env s).completed with
      | true => exact (he hc).1
      | false => exact absurd hs (hg hc)
    · have hn := (he hd).1
      rwa [hn, append_nil] at ha
  · rw [hh, hc, append_nil]
    refine ⟨fun _ => hr, hnd, ?_, fun h => absurd hs h, nofun⟩
    rw [hr, append_nil]
    exact (sublist_append_left _ _).subperm.trans hperm.subperm

theorem step_inv (Q : Queues) (e : Event) (x : SchedRun) (hx : Inv x) (he : Fair e x) : Inv (step Q e x) := by
  cases e with
  | call env =>
    unfold step
    dsimp only
    split
    · next hf =>
      obtain ⟨refs, hs, hr⟩ := beginSession_refs Q env x.s
      rw [hx.idle hf, nil_append] at hr
      have hent : (enter Q env x.s).2.jRefList = refs := by
        unfold enter
        rw [if_pos hf]
        exact hr
      refine @call_inv Q env x.s _ [] (hent ▸ (he hf).sublist hs) ?_
      exact .refl _
    · next hf =>
      have hent : (enter Q env x.s).2 = x.s := by
        unfold enter
        rw [if_neg hf]
      exact call_inv hx.nodup (by rw [hent]; exact hx.going hf)
  | other f => exact ⟨hx.idle, hx.nodup, hx.sub, hx.going, hx.done⟩

/-- Each reference is handed over at most once, and exactly once in a session that goes to its end. -/
structure Orderly (x : SchedRun) : Prop where
  placed : ∀ j ∈ takenJobs x.handed, j ∈ x.placed
  once : ∀ j, (takenJobs x.handed).count j ≤ 1
  all : x.completed = true → ∀ j ∈ x.placed, (takenJobs x.handed).count j = 1

theorem Inv.orderly (h : Inv x) : Orderly x := by
  have hs : (takenJobs x.handed).Subperm x.placed := (sublist_append_left _ _).subperm.trans h.sub
  have hc (j : JobRef) : (takenJobs x.handed).count j ≤ x.placed.count j := hs.count_le j
  refine ⟨fun j hj => hs.subset hj, fun j => (hc j).trans (nodup_iff_count_le_one.mp h.nodup j), fun hd j hj => ?_⟩
  rw [(h.done hd).count_eq]
  exact count_eq_one_of_mem h.nodup hj

end

def start (mbd : Mbd) : SchedRun := { s := { mbd } }

theorem start_inv (mbd : Mbd) : Inv (start mbd) :=
  ⟨fun _ => rfl, nodup_nil, .refl _, fun _ => .refl _, nofun⟩

section

variable {Q : Queues} {env : Env}

theorem Goes.refsPend (hg : Goes env s s') (hc : env.Calm) (h : RefsPend s) : RefsPend s' :=
  fun j hj => hg.pend hc j (h j (hg.refs ▸ hj))

def handedBy (Q : Queues) : Event → SchedRun → List Handover
  | .call env, x => (scheduleAndDispatchJobs Q env x.s).handed
  | .other _, _ => []

def HasRefs (Q : Queues) : Event → SchedRun → Prop
  | .call env, x => ∀ p, beforeJobs Q env x.s = .ok p → p.2.jRefList ≠ []
  | .other _, _ => True

def Undisturbed : Event → SchedRun → Prop
  | .call env, x => env.Calm ∧ (x.s.mSchedStage = {} → ∀ j ∈ candidates x.s.mbd, (x.s.mbd.jobs j).jStatus.mask.isPend)
  | .other f, x => ∀ j ∈ x.s.jRefList, (x.s.mbd.jobs j).jStatus.mask.isPend → ((f x.s.mbd).jobs j).jStatus.mask.isPend

theorem handedBy_taken_iff (Q : Queues) (e : Event) (x : SchedRun) :
    (∀ h ∈ handedBy Q e x, h.taken = true) ↔ HasRefs Q e x := by
  cases e with
  | other f => simp [handedBy, HasRefs]
  | call env =>
    simp only [handedBy, HasRefs, scheduleAndDispatchJobs]
    cases hj : beforeJobs Q env x.s with
    | error e => simp
    | ok p =>
      obtain ⟨jPtr, s⟩ := p
      have hh := @again_hands s (s.jRefList.length + 1) 0 jPtr Q env (by omega)
      simp only [hh.taken, Except.ok.injEq]
      exact ⟨fun h p hp => hp ▸ h, fun h => h (jPtr, s) rfl⟩

theorem call_pending (hc : env.Calm) (hnd : (enter Q env s).2.jRefList.Nodup) (h : RefsPend (enter Q env s).2) :
    (∀ h ∈ (scheduleAndDispatchJobs Q env s).handed, h.taken → h.pending) ∧
      RefsPend (scheduleAndDispatchJobs Q env s).s := by
  have hb := beforeJobs_refs Q env s
  unfold scheduleAndDispatchJobs
  cases hjobs : beforeJobs Q env s with
  | error e =>
    rw [hjobs] at hb
    refine ⟨nofun, ?_⟩
    rcases hb with hg | ⟨hn, -⟩
    · exact hg.refsPend hc h
    · intro j hj
      rw [hn] at hj
      cases hj
  | ok p =>
    rw [hjobs] at hb
    exact again_pending Q hc (by rw [hb.refs]; exact hnd) (hb.refsPend hc h)

end

section

variable {x : SchedRun}

/-- What holds besides in a run without disturbance. -/
structure Good (x : SchedRun) : Prop where
  inv : Inv x
  refs : RefsPend x.s
  handed : ∀ h ∈ x.handed, h.taken = true ∧ h.pending = true

theorem step_good (Q : Queues) (e : Event) (x : SchedRun) (hx : Good x)
    (he : (Fair e x ∧ HasRefs Q e x) ∧ Undisturbed e x) : Good (step Q e x) := by
  obtain ⟨⟨hfair, hr⟩, hc⟩ := he
  have hi := step_inv Q e x hx.inv hfair
  cases e with
  | other f => exact ⟨hi, fun j hj => hc j hj (hx.refs j hj), hx.handed⟩
  | call env =>
    have ht := (handedBy_taken_iff Q (.call env) x).mpr hr
    obtain ⟨hc, hpend⟩ := hc
    have he : (enter Q env x.s).2.jRefList.Nodup ∧ RefsPend (enter Q env x.s).2 := by
      unfold enter
      split
      · next hf =>
        obtain ⟨refs, hs, hlist⟩ := beginSession_refs Q env x.s
        rw [hx.inv.idle hf, nil_append] at hlist
        refine ⟨hlist ▸ (hfair hf).sublist hs, fun j hj => ?_⟩
        rw [beginSession_mask]
        exact hpend hf j (hs.subset (hlist ▸ hj))
      · next hf =>
        exact ⟨(nodup_append.mp ((hx.inv.going hf).nodup_iff.mpr hx.inv.nodup)).2.1, hx.refs⟩
    obtain ⟨hhan, hl⟩ := call_pending hc he.1 he.2
    have hn : ∀ h ∈ (scheduleAndDispatchJobs Q env x.s).handed, h.taken = true ∧ h.pending = true :=
      fun h hh => ⟨ht h hh, hhan h hh (ht h hh)⟩
    refine ⟨hi, ?_, ?_⟩
    · unfold step
      dsimp only
      split <;> exact hl
    · unfold step
      dsimp only
      split
      · exact hn
      · exact fun h hh => (mem_append.mp hh).elim (hx.handed h) (hn h)

/-- In every run each reference is handed over at most once, and exactly once in a session that
goes to its end; only jobs of the list are iff no call finds it empty. -/
theorem sessions (Q : Queues) (mbd : Mbd) (events : List Event) (hfair : Run.Meets (step Q) Fair events (start mbd)) :
    Orderly (Run.run (step Q) events (start mbd)) ∧
    (Run.Meets (step Q) (fun e x => ∀ h ∈ handedBy Q e x, h.taken = true) events (start mbd) ↔
      Run.Meets (step Q) (HasRefs Q) events (start mbd)) ∧
    (Run.Meets (step Q) (HasRefs Q) events (start mbd) → Run.Meets (step Q) Undisturbed events (start mbd) →
      ∀ h ∈ (Run.run (step Q) events (start mbd)).handed, h.taken = true ∧ h.pending = true) := by
  refine ⟨?_, ⟨?_, ?_⟩, fun hr hc => ?_⟩
  · exact (Run.run_invariant (step_inv Q) events _ (start_inv mbd) hfair).orderly
  · exact fun h => h.imp events _ fun e x => (handedBy_taken_iff Q e x).mp
  · exact fun h => h.imp events _ fun e x => (handedBy_taken_iff Q e x).mpr
  · have hg := Run.run_invariant (step_good Q) events (start mbd) ⟨start_inv mbd, nofun, nofun⟩
      ((hfair.and events _ hr).and events _ hc)
    exact hg.handed

end

def pendingJobs (jobs : List JobRef) : Mbd :=
  { Mbd.blank with
    queues := fun _ => { count := fun c => if c = .numPEND then jobs.length else 0 }
    users := fun _ => { count := fun c => if c = .numPEND then jobs.length else 0 }
    lists := fun l => if l = .PJL then { entries := jobs, numEnts := jobs.length } else {} }

def oneQueue : Queues := { qDataList := [0] }

def trying (dispRet : DispRet) : Event := .call { visit := fun _ _ mbd => { dispRet, mbd } }

/-- Two jobs, tried in two calls. -/
theorem sessions_two_calls : Orderly (Run.run (step oneQueue) [trying .DISP_TIME_OUT, trying .DISP_NO_JOB]
    (start (pendingJobs [0, 1]))) :=
  (sessions oneQueue (pendingJobs [0, 1]) [trying .DISP_TIME_OUT, trying .DISP_NO_JOB]
    ⟨fun _ => by decide, fun _ => by decide, trivial⟩).1

def kill (j : JobRef) : Event := .other fun s => s.setJob j { s.jobs j with jStatus := { mask := .EXIT } }

/-- The variable that was never set is handed over, and a job killed between two calls. -/
theorem sessions_stray_job :
    (Run.run (step oneQueue) [trying .DISP_TIME_OUT, trying .DISP_NO_JOB] (start (pendingJobs [0]))).handed =
      [⟨.job 0, true, true⟩, ⟨.uninitialized, false, false⟩] ∧
    (Run.run (step oneQueue) [trying .DISP_TIME_OUT, kill 0, trying .DISP_NO_JOB] (start (pendingJobs [0, 1]))).handed =
      [⟨.job 1, true, true⟩, ⟨.job 0, true, false⟩] := by
  decide

end OpenLava.Session

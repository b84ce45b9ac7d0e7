import OpenLava.Mbd.Daemon

/-!
# Forced runs

Before the hosts of a `brun` are checked a finished job is requeued and a reservation is given up, and before the job is
started it is marked as urgent. None of this is undone when the request fails later.
-/

namespace OpenLava

open Function

/-- The replies of `sbatchd` that are told apart. -/
inductive SbdReply where
  | ERR_NO_ERROR | ERR_NO_JOB | ERR_NULL | ERR_MEM | ERR_FORK_FAIL | ERR_PID_FAIL | ERR_ROOT_JOB | ERR_LOCK_FAIL
  | ERR_JOB_QUOTA | ERR_NO_USER | ERR_NO_FILE | ERR_BAD_REQ | ERR_UNREACH_SBD | ERR_FAIL | unknown
  deriving DecidableEq, Repr

/-- `struct runJobRequest`, and whether its user is root, a manager or an administrator. -/
structure RunJobRequest where
  jobId : Int
  hostname : List String
  noStop : Bool := false -- `RUNJOB_OPT_NOSTOP`
  pendOnly : Bool := false -- `RUNJOB_OPT_PENDONLY`
  fromBegin : Bool := false -- `RUNJOB_OPT_FROM_BEGIN`
  permitted : QRef → Bool := fun _ => true

/-- What `runJob` finds outside the records of the job, queues and hosts. -/
structure RunEnv where
  getJobData : Int → Option JobRef
  isArray : JobRef → Bool := fun _ => false -- `nodeType != JGRP_NODE_JOB`
  getHostData : String → Option HRef
  lockedMaster : HRef → Bool := fun _ => false -- `HOST_STAT_LOCKED_MASTER`
  now : Int := 0
  zombieHost : Option HRef := none -- the first host of the zombie job of the same id
  reply : SbdReply := .ERR_NO_ERROR -- the reply to `start_job`
  sigReply : SbdReply := .ERR_NO_ERROR -- the reply to `signal_job`, when there was none to `start_job`
  replyFinished : Bool := false -- `IS_FINISH` of the status in the reply
  lsberrno : Lsbe := .NO_ERROR -- `lsberrno` when the job could not be started

/-- The daemon with the bit `JOB_STAT_RSRC_PREEMPT_WAIT` of the jobs. -/
structure RunState where
  mbd : Mbd
  preemptWait : JobRef → Bool := fun _ => false

/-- The checks of `runJob` that come before all changes. -/
def checkRunRequest (env : RunEnv) (request : RunJobRequest) (s : Mbd) : Except Lsbe JobRef :=
  match env.getJobData request.jobId with
  | none => .error .NO_JOB
  | some j =>
    let job := s.jobs j
    if ¬ request.permitted job.qPtr then .error .PERMISSION
    else if env.isArray j then .error .JOB_ARRAY
    else if job.jStatus.mask.ssusp ∨ job.jStatus.mask.ususp then .error .JOB_SUSP
    else if job.jStatus.mask.isStart then .error .JOB_STARTED
    else if request.fromBegin ∧ ¬ job.jobBill.chkpntable then .error .J_UNCHKPNTABLE
    else if job.jStatus.mask.isFinish ∧ request.pendOnly then .error .JOB_FINISH
    else .ok j

/-- Before the hosts are checked: requeue a finished job, give up reservations. -/
def prepareRun (C : Config) (now : Int) (j : JobRef) (st : RunState) : RunState :=
  let st :=
    if (st.mbd.jobs j).jStatus.mask.isFinish then
      -- the job gets a new status word
      { mbd := handleRequeueJob C now j st.mbd, preemptWait := update st.preemptWait j false }
    else st
  let st := if (st.mbd.jobs j).jStatus.reserve then { st with mbd := freeReserveSlots j st.mbd } else st
  if st.preemptWait j then { st with preemptWait := update st.preemptWait j false } else st

def uniqueEntries (hostname : List String) : List String :=
  hostname.foldl (fun reqHosts host => if host ∈ reqHosts then reqHosts else reqHosts ++ [host]) []

/-- The first loop of `setUrgentJobExecHosts`: each is a local host that is not locked. -/
def checkReqHosts (env : RunEnv) (hosts : HRef → HData) : List String → Except Lsbe (List HRef)
  | [] => .ok []
  | name :: reqHosts =>
    match env.getHostData name with
    | none => .error .BAD_HOST
    | some h =>
      if (hosts h).remote then .error .BAD_HOST
      else if env.lockedMaster h then .error .LOCKED_MASTER
      else (checkReqHosts env hosts reqHosts).map (h :: ·)

/-- The last loop of `setUrgentJobExecHosts`: each host once per processor, up to a number. -/
def fillHosts (hosts : HRef → HData) (numHostSlots : Nat) (reqHosts : List HRef) : List HRef :=
  reqHosts.foldl (fun hPtr h =>
    let numCPUNeeded :=
      if hPtr.length + (hosts h).numCPUs > numHostSlots then numHostSlots - hPtr.length else (hosts h).numCPUs
    hPtr ++ List.replicate numCPUNeeded h) []

/-- The new host array of the job, by its submission. -/
def setUrgentJobExecHosts (env : RunEnv) (request : RunJobRequest) (hosts : HRef → HData) (jobBill : JobBill) :
    Except Lsbe (List HRef) :=
  let max := jobBill.maxNumProcessors
  let min := jobBill.numProcessors
  match checkReqHosts env hosts (uniqueEntries request.hostname) with
  | .error cc => .error cc
  | .ok reqHosts =>
    let numHostSlots := (reqHosts.map fun h => (hosts h).numCPUs).sum
    if max = min then
      if numHostSlots < max then .error .PROC_NUM else .ok (fillHosts hosts (Nat.min numHostSlots max) reqHosts)
    else if ¬ (min ≤ numHostSlots ∧ numHostSlots ≤ max) then .error .PROC_NUM
    else .ok (fillHosts hosts (Nat.min numHostSlots max) reqHosts)

def JData.markUrgent (request : RunJobRequest) (job : JData) : JData :=
  let job := if request.noStop then { job with urgentNoStop := true } else { job with urgent := true }
  let job :=
    if request.fromBegin then
      { job with
        jStatus := { job.jStatus with chkpntedOnce := false }
        jobBill := { job.jobBill with restart := false, restartForce := false } }
    else job
  { job with newReason := 0 }

def jobStarted (C : Config) (now : Int) (replyFinished : Bool) (j : JobRef) (s : Mbd) : Mbd :=
  let jp := s.jobs j
  if jp.jStatus.mask.isFinish ∨ replyFinished then s
  else
    let s := s.modJob j fun jp => { jp with newReason := 0 }
    let s :=
      if jp.jobBill.exclusive then
        { s with hosts := Ledger.updateEach (fun _ hp => { hp with exclusive := true }) jp.hPtr s.hosts }
      else s
    let s :=
      if jp.jobBill.preExec then s.modJob j fun jp => { jp with jStatus := { jp.jStatus with preExec := true } } else s
    jStatusChange C now j .RUN 0 s

/-- The pending reason of `jobStartError` for a reply. -/
def startErrorReason : SbdReply → Nat
  | .ERR_MEM => PEND_SBD_NO_MEM
  | .ERR_FORK_FAIL => PEND_SBD_NO_PROCESS
  | .ERR_PID_FAIL => PEND_SBD_GETPID
  | .ERR_ROOT_JOB => PEND_SBD_ROOT
  | .ERR_LOCK_FAIL => PEND_SBD_LOCK
  | .ERR_JOB_QUOTA => PEND_SBD_JOB_QUOTA
  | .ERR_NO_USER => PEND_HOST_NO_USER
  | .ERR_NO_FILE => PEND_JOB_NO_FILE
  | .ERR_BAD_REQ | .ERR_UNREACH_SBD | .ERR_FAIL | .ERR_NO_ERROR | .ERR_NO_JOB | .ERR_NULL | .unknown => PEND_JOB_START_FAIL

/-- A reason that the host is to blame for takes its processors. -/
def jobStartError (reply : SbdReply) (j : JobRef) (s : Mbd) : Mbd :=
  let newReason := startErrorReason reply
  let jp := s.jobs j
  if newReason ≠ PEND_JOB_NO_FILE ∧ newReason ≠ PEND_HOST_NO_USER ∧ newReason ≠ PEND_SBD_LOCK ∧ newReason ≠ PEND_SBD_ROOT then
    let numCPUs := match jp.hPtr.head? with
      | some h => (s.hosts h).numCPUs
      | none => 0
    let qp := { s.queues jp.qPtr with numUsable := (s.queues jp.qPtr).numUsable - numCPUs }
    { s.modJob j (fun jp => { jp with newReason := 0 }) with queues := update s.queues jp.qPtr qp }
  else s.modJob j fun jp => { jp with newReason }

/-- `dispatch_it` -/
def dispatchIt (C : Config) (env : RunEnv) (j : JobRef) (s : Mbd) : Mbd × Bool :=
  let fail := fun newReason => (s.modJob j fun jp => { jp with newReason }, false)
  if env.zombieHost.isSome ∧ env.zombieHost = (s.jobs j).hPtr.head? then fail PEND_SBD_ZOMBIE
  else
    match env.reply with
    | .ERR_NO_ERROR => ((jobStarted C env.now env.replyFinished j s).modJob j fun jp => { jp with newReason := 0 }, true)
    | .ERR_NULL =>
      match env.sigReply with
      | .ERR_NO_ERROR => ((jobStarted C env.now env.replyFinished j s).modJob j fun jp => { jp with newReason := 0 }, true)
      | .ERR_NO_JOB => fail PEND_JOB_START_FAIL
      | _ => fail PEND_JOB_START_UNKNWN
    | reply => (jobStartError reply j s, false)

def runJob (C : Config) (env : RunEnv) (request : RunJobRequest) (st : RunState) : Lsbe × RunState :=
  match checkRunRequest env request st.mbd with
  | .error cc => (cc, st)
  | .ok j =>
    let st := prepareRun C env.now j st
    match setUrgentJobExecHosts env request st.mbd.hosts (st.mbd.jobs j).jobBill with
    | .error cc => (cc, st)
    | .ok hPtr =>
      let s := st.mbd.modJob j fun job => { job with hPtr }.markUrgent request
      let (s, started) := dispatchIt C env j s
      if started then (.NO_ERROR, { st with mbd := s })
      else (env.lsberrno, { st with mbd := s.modJob j fun job => { job with hPtr := [] } })

section

variable {env : RunEnv} {j : JobRef} {s : Mbd} {st : RunState}

def hostSize (hp : HData) : Bool × Nat := (hp.remote, hp.numCPUs)

theorem setUrgentJobExecHosts_congr (h : ∀ x, hostSize (hosts' x) = hostSize (hosts x))
    (jobBill : JobBill) : setUrgentJobExecHosts env request hosts' jobBill = setUrgentJobExecHosts env request hosts jobBill := by
  have hr : ∀ x, (hosts' x).remote = (hosts x).remote := fun x => congrArg Prod.fst (h x)
  have hcpus : ∀ x, (hosts' x).numCPUs = (hosts x).numCPUs := fun x => congrArg Prod.snd (h x)
  have hc : ∀ names, checkReqHosts env hosts' names = checkReqHosts env hosts names := by
    intro names
    induction names with
    | nil => rfl
    | cons name names ih => simp only [checkReqHosts, hr, ih]
  simp only [setUrgentJobExecHosts, hc, hcpus, fillHosts]

theorem account_hostSize (jp : JData) (d : Tally) (hp : HData) : hostSize (HData.account jp d hp) = hostSize hp := by
  by_cases hr : hp.remote <;> simp [HData.account, hostSize, hr]

theorem freeReserveSlots_hostSize (h : HRef) : hostSize ((freeReserveSlots j s).hosts h) = hostSize (s.hosts h) := by
  have hpost : ∀ jp p, hostSize ((post jp p s).hosts h) = hostSize (s.hosts h) := fun jp p =>
    post_hostField jp p s hostSize (account_hostSize jp) h
  have hu : ∀ n, hostSize ((updResCounters j (s.jobs j) n s).hosts h) = hostSize (s.hosts h) := fun n => by
    unfold updResCounters
    split
    · rfl
    · split
      · rfl
      · exact hpost _ _
      · refine Eq.trans (Ledger.updateEach_field hostSize _ (fun _ hp => ?_) _ _ h) (hpost _ _)
        split_ifs <;> rfl
      · refine Eq.trans (Ledger.updateEach_field hostSize _ (fun _ hp => ?_) _ _ h) (hpost _ _)
        split_ifs <;> rfl
  unfold freeReserveSlots
  split
  · rfl
  · exact Eq.trans (Ledger.updateEach_field hostSize (fun _ hp => { hp with numDispJobs := hp.numDispJobs + -1 })
      (fun _ _ => rfl) _ _ h) (hu _)

theorem handleRequeueJob_hosts (requeueTime : Int) : (handleRequeueJob C requeueTime j s).hosts = s.hosts := by
  have hc : ∀ jp s, (countPending jp s).hosts = s.hosts := fun jp s => by
    unfold countPending
    split_ifs <;> rfl
  unfold handleRequeueJob suspendRequeued
  rw [hc]
  split_ifs <;> rfl

theorem handleRequeueJob_bill (requeueTime : Int) :
    ((handleRequeueJob C requeueTime j s).jobs j).jobBill = ((s.jobs j).prepareRequeue C).jobBill := by
  have hs : ∀ s : Mbd, ((suspendRequeued j s).jobs j).jobBill = (s.jobs j).jobBill := fun s => by
    unfold suspendRequeued
    split_ifs <;> simp [updJgrpCountByJStatus]
  unfold handleRequeueJob
  simp only [countPending_jobs, modJob_job, freeExecParams, hs, inPendJobList_jobs]
  simp [offJobList, listRemoveEntry, updJgrpCountByJStatus]

/-- Nothing is pending on the job that `runJob` would give up first. -/
def Settled (j : JobRef) (st : RunState) : Prop :=
  (st.mbd.jobs j).jStatus.mask.isFinish = false ∧ (st.mbd.jobs j).jStatus.reserve = false ∧ st.preemptWait j = false
  deriving Decidable

theorem Settled.prepareRun (h : Settled j st) (now : Int) : prepareRun C now j st = st := by
  unfold OpenLava.prepareRun
  simp [h.1, h.2.1, h.2.2]

theorem prepareRun_settled (now : Int) : Settled j (prepareRun C now j st) := by
  unfold prepareRun
  dsimp only
  set st1 := if (st.mbd.jobs j).jStatus.mask.isFinish then _ else st with hst1
  have hfin : (st1.mbd.jobs j).jStatus.mask.isFinish = false := by
    rw [hst1]
    split_ifs with hf
    · rcases handleRequeueJob_status (C := C) (j := j) (s := st.mbd) now with h | h <;> rw [h] <;> rfl
    · simpa using hf
  set st2 := if (st1.mbd.jobs j).jStatus.reserve then _ else st1 with hst2
  have hf : (st2.mbd.jobs j).jStatus.mask.isFinish = false ∧ (st2.mbd.jobs j).jStatus.reserve = false := by
    rw [hst2]
    split_ifs with hr
    · rw [freeReserveSlots_jobs j st1.mbd hr, modJob_job]
      exact ⟨hfin, rfl⟩
    · exact ⟨hfin, by simpa using hr⟩
  split_ifs with hw
  · exact ⟨hf.1, hf.2, update_self ..⟩
  · exact ⟨hf.1, hf.2, by simpa using hw⟩

theorem prepareRun_hostSize (now : Int) (h : HRef) :
    hostSize ((prepareRun C now j st).mbd.hosts h) = hostSize (st.mbd.hosts h) := by
  unfold prepareRun
  dsimp only
  split_ifs <;> simp only [freeReserveSlots_hostSize, handleRequeueJob_hosts]

theorem prepareRun_bill (now : Int) : ((prepareRun C now j st).mbd.jobs j).jobBill =
    if (st.mbd.jobs j).jStatus.mask.isFinish then ((st.mbd.jobs j).prepareRequeue C).jobBill
    else (st.mbd.jobs j).jobBill := by
  have hf : ∀ s : Mbd, ((freeReserveSlots j s).jobs j).jobBill = (s.jobs j).jobBill := fun s => by
    by_cases hr : (s.jobs j).jStatus.reserve
    · rw [freeReserveSlots_jobs j s hr, modJob_job]
      rfl
    · rw [freeReserveSlots, if_pos hr]
  unfold prepareRun
  dsimp only
  split_ifs <;> simp only [hf, handleRequeueJob_bill]

/-- Whether `sbatchd` starts the job on these hosts. -/
def starts (env : RunEnv) (hPtr : List HRef) : Bool :=
  if env.zombieHost.isSome ∧ env.zombieHost = hPtr.head? then false
  else
    match env.reply with
    | .ERR_NO_ERROR => true
    | .ERR_NULL => env.sigReply = .ERR_NO_ERROR
    | _ => false

theorem dispatchIt_snd : (dispatchIt C env j s).2 = starts env (s.jobs j).hPtr := by
  unfold dispatchIt starts
  by_cases hz : env.zombieHost.isSome ∧ env.zombieHost = (s.jobs j).hPtr.head?
  · rw [if_pos hz, if_pos hz]
  · rw [if_neg hz, if_neg hz]
    cases env.reply <;> cases env.sigReply <;> rfl

structure NotStarted (j : JobRef) (s s' : Mbd) : Prop where
  job : ∃ newReason, s'.jobs = (s.modJob j fun jp => { jp with newReason }).jobs
  queues : ∀ q, ∃ numUsable, s'.queues q = { s.queues q with numUsable }
  users : s'.users = s.users
  hosts : s'.hosts = s.hosts

theorem notStarted_reason (newReason : Nat) : NotStarted j s (s.modJob j fun jp => { jp with newReason }) :=
  ⟨⟨newReason, rfl⟩, fun _ => ⟨_, rfl⟩, rfl, rfl⟩

theorem jobStartError_notStarted (reply : SbdReply) : NotStarted j s (jobStartError reply j s) := by
  unfold jobStartError
  dsimp only
  split
  · refine ⟨⟨0, rfl⟩, fun q => ?_, rfl, rfl⟩
    by_cases hq : q = (s.jobs j).qPtr
    · subst hq
      exact ⟨_, by simp; rfl⟩
    · exact ⟨_, by simp [hq]; rfl⟩
  · exact notStarted_reason _

theorem dispatchIt_notStarted (h : (dispatchIt C env j s).2 = false) : NotStarted j s (dispatchIt C env j s).1 := by
  unfold dispatchIt at h ⊢
  by_cases hz : env.zombieHost.isSome ∧ env.zombieHost = (s.jobs j).hPtr.head?
  · rw [if_pos hz]
    exact notStarted_reason _
  · rw [if_neg hz] at h ⊢
    revert h
    split
    · exact fun h => absurd h (by simp)
    · split
      · exact fun h => absurd h (by simp)
      · exact fun _ => notStarted_reason _
      · exact fun _ => notStarted_reason _
    · exact fun _ => jobStartError_notStarted _

theorem setUrgentJobExecHosts_error (h : setUrgentJobExecHosts env request hosts jobBill = .error cc) : cc ≠ .NO_ERROR := by
  have hc : ∀ names cc, checkReqHosts env hosts names = .error cc → cc ≠ .NO_ERROR := by
    intro names
    induction names with
    | nil => exact fun cc h => by cases h
    | cons name names ih =>
      intro cc h
      unfold checkReqHosts at h
      split at h
      · cases h
        decide
      · split_ifs at h
        · cases h
          decide
        · cases h
          decide
        · cases hr : checkReqHosts env hosts names with
          | error cc' =>
            rw [hr] at h
            cases h
            exact ih _ hr
          | ok reqHosts =>
            rw [hr] at h
            cases h
  unfold setUrgentJobExecHosts at h
  dsimp only at h
  split at h
  · rename_i hr
    cases h
    exact hc _ _ hr
  · split_ifs at h <;> cases h <;> decide

end

structure Unchanged (st st' : RunState) : Prop where
  status : ∀ j, (st'.mbd.jobs j).jStatus = (st.mbd.jobs j).jStatus ∧ st'.preemptWait j = st.preemptWait j
  queue : ∀ j, (st'.mbd.jobs j).qPtr = (st.mbd.jobs j).qPtr
  hPtr : ∀ j, (st'.mbd.jobs j).hPtr = (st.mbd.jobs j).hPtr
  flags : ∀ j, (st'.mbd.jobs j).requeueFlag = (st.mbd.jobs j).requeueFlag ∧
    (st'.mbd.jobs j).urgent = (st.mbd.jobs j).urgent ∧ (st'.mbd.jobs j).urgentNoStop = (st.mbd.jobs j).urgentNoStop
  queueCounts : ∀ q, (st'.mbd.queues q).count = (st.mbd.queues q).count ∧
    (st'.mbd.queues q).uAcct = (st.mbd.queues q).uAcct ∧ (st'.mbd.queues q).hAcct = (st.mbd.queues q).hAcct
  userCounts : st'.mbd.users = st.mbd.users
  hostCounts : st'.mbd.hosts = st.mbd.hosts

theorem Unchanged.refl (st : RunState) : Unchanged st st :=
  ⟨fun _ => ⟨rfl, rfl⟩, fun _ => rfl, fun _ => rfl, fun _ => ⟨rfl, rfl, rfl⟩, fun _ => ⟨rfl, rfl, rfl⟩, rfl, rfl⟩

/-- When a failed request leaves no trace: refused at once, or of a pending job with nothing to
lose. -/
def RunAtomic (C : Config) (env : RunEnv) (request : RunJobRequest) (st : RunState) : Prop :=
  match checkRunRequest env request st.mbd with
  | .error _ => True
  | .ok j =>
    let job := st.mbd.jobs j
    let jobBill := if job.jStatus.mask.isFinish then (job.prepareRequeue C).jobBill else job.jobBill
    match setUrgentJobExecHosts env request st.mbd.hosts jobBill with
    | .error _ => Settled j st
    | .ok hPtr => starts env hPtr = true ∨ env.lsberrno = .NO_ERROR ∨
      (Settled j st ∧ job.hPtr = [] ∧ (if request.noStop then job.urgentNoStop else job.urgent) = true ∧
        (request.fromBegin = true → job.jStatus.chkpntedOnce = false))

section

theorem markUrgent_hPtr (job : JData) : (job.markUrgent request).hPtr = job.hPtr := by
  unfold JData.markUrgent
  split_ifs <;> rfl

theorem clearChkpnt_eq (status : JStatus) :
    { status with chkpntedOnce := false } = status ↔ status.chkpntedOnce = false := by
  cases status
  simp [eq_comm]

theorem markUrgent_same (request : RunJobRequest) (job : JData) : let job' := job.markUrgent request
    job'.jStatus.mask = job.jStatus.mask ∧ job'.jStatus.reserve = job.jStatus.reserve ∧ job'.qPtr = job.qPtr ∧
      job'.requeueFlag = job.requeueFlag ∧
      (job'.jStatus = job.jStatus ∧ job'.urgent = job.urgent ∧ job'.urgentNoStop = job.urgentNoStop ↔
        (if request.noStop then job.urgentNoStop else job.urgent) = true ∧
          (request.fromBegin = true → job.jStatus.chkpntedOnce = false)) := by
  unfold JData.markUrgent
  cases request.noStop <;> cases request.fromBegin <;> simp [clearChkpnt_eq, and_comm, eq_comm (a := true)]

/-- After a run forced in vain the job has the marks and no hosts. -/
theorem Unchanged.iff_marked {hPtr : List HRef} (hst : NotStarted j
    (st.mbd.modJob j fun job => { job with hPtr }.markUrgent request) s₁) :
    Unchanged st { st with mbd := s₁.modJob j fun job => { job with hPtr := [] } } ↔
      (st.mbd.jobs j).hPtr = [] ∧ (if request.noStop then (st.mbd.jobs j).urgentNoStop else (st.mbd.jobs j).urgent) = true ∧
        (request.fromBegin = true → (st.mbd.jobs j).jStatus.chkpntedOnce = false) := by
  obtain ⟨⟨newReason, hj⟩, hque, huse, hh⟩ := hst
  obtain ⟨-, -, hq, hrq, hmar⟩ := markUrgent_same request { st.mbd.jobs j with hPtr }
  have hs : (s₁.modJob j fun job => { job with hPtr := [] }).jobs j =
      { { st.mbd.jobs j with hPtr }.markUrgent request with newReason, hPtr := [] } := by
    rw [modJob_job, hj, modJob_job, modJob_job]
  have ho : ∀ i, i ≠ j → (s₁.modJob j fun job => { job with hPtr := [] }).jobs i = st.mbd.jobs i := fun i hij => by
    rw [Mbd.modJob_jobs, update_of_ne hij, hj, Mbd.modJob_jobs, update_of_ne hij, Mbd.modJob_jobs,
      update_of_ne hij]
  rw [← hmar]
  constructor
  · intro h
    have hsta := (h.status j).1
    have hf := h.flags j
    have hhPtr := h.hPtr j
    rw [hs] at hsta hf hhPtr
    exact ⟨hhPtr.symm, hsta, hf.2⟩
  · rintro ⟨hn, hsta, hu, hnoStop⟩
    have hc : ∀ {β : Type} (f : JData → β), f ((s₁.modJob j fun job => { job with hPtr := [] }).jobs j) = f (st.mbd.jobs j) →
        ∀ i, f ((s₁.modJob j fun job => { job with hPtr := [] }).jobs i) = f (st.mbd.jobs i) := fun f hf i => by
      by_cases hij : i = j
      · rwa [hij]
      · rw [ho i hij]
    refine ⟨fun i => ⟨hc JData.jStatus (by rw [hs]; exact hsta) i, rfl⟩,
      hc JData.qPtr (by rw [hs]; exact hq), hc JData.hPtr (by rw [hs, hn]), fun i => ⟨?_, ?_, ?_⟩,
      fun q => ?_, huse, hh⟩
    · exact hc JData.requeueFlag (by rw [hs]; exact hrq) i
    · exact hc JData.urgent (by rw [hs]; exact hu) i
    · exact hc JData.urgentNoStop (by rw [hs]; exact hnoStop) i
    · obtain ⟨n, hn⟩ := hque q
      simp only [Mbd.modJob_queues, hn, and_self]

theorem Settled.of_unchanged (h1 : Settled j st₁) (h : Unchanged st st')
    (hmask : (st'.mbd.jobs j).jStatus.mask = (st₁.mbd.jobs j).jStatus.mask)
    (hr : (st'.mbd.jobs j).jStatus.reserve = (st₁.mbd.jobs j).jStatus.reserve)
    (hw : st'.preemptWait = st₁.preemptWait) : Settled j st := by
  obtain ⟨hfin, hf, hi⟩ := h1
  obtain ⟨hs, hsame⟩ := h.status j
  refine ⟨?_, ?_, ?_⟩
  · rw [← hs, hmask, hfin]
  · rw [← hs, hr, hf]
  · rw [← hsame, hw, hi]

/-- A failed request leaves all unchanged exactly under `RunAtomic`. -/
theorem runJob_unchanged_iff (C : Config) (env : RunEnv) (request : RunJobRequest) (st : RunState) :
    ((runJob C env request st).1 ≠ .NO_ERROR → Unchanged st (runJob C env request st).2) ↔
      RunAtomic C env request st := by
  unfold runJob RunAtomic
  cases hc : checkRunRequest env request st.mbd with
  | error cc => exact iff_of_true (fun _ => .refl st) trivial
  | ok j =>
    dsimp only
    rw [setUrgentJobExecHosts_congr (prepareRun_hostSize env.now), prepareRun_bill]
    have hset1 : Settled j (prepareRun C env.now j st) := prepareRun_settled env.now
    have hkeep : Settled j st → prepareRun C env.now j st = st := fun h => h.prepareRun env.now
    generalize prepareRun C env.now j st = st1 at hset1 hkeep ⊢
    cases hh : setUrgentJobExecHosts env request st.mbd.hosts _ with
    | error cc =>
      refine ⟨fun h => hset1.of_unchanged (h (setUrgentJobExecHosts_error hh)) rfl rfl rfl, fun h _ => ?_⟩
      rw [hkeep h]
      exact .refl st
    | ok hPtr =>
      dsimp only
      set s1 := st1.mbd.modJob j fun job => { job with hPtr }.markUrgent request with hs1
      have hsta : (dispatchIt C env j s1).2 = starts env hPtr := by
        rw [dispatchIt_snd, hs1, modJob_job, markUrgent_hPtr]
      cases hc : starts env hPtr with
      | true =>
        rw [hc] at hsta
        simp [hsta]
      | false =>
        rw [hc] at hsta
        have hf := dispatchIt_notStarted hsta
        simp only [hsta, Bool.false_eq_true, if_false, false_or]
        by_cases hn : env.lsberrno = .NO_ERROR
        · simp [hn]
        · simp only [hn, false_or, ne_eq, not_false_eq_true, true_implies]
          by_cases hset : Settled j st
          · obtain rfl := hkeep hset
            rw [and_iff_right hset]
            exact Unchanged.iff_marked hf
          · refine iff_of_false (fun h => hset ?_) fun h => hset h.1
            obtain ⟨hmask, hr, -⟩ := markUrgent_same request { st1.mbd.jobs j with hPtr }
            obtain ⟨⟨newReason, hj⟩, -⟩ := hf
            refine hset1.of_unchanged h ?_ ?_ rfl
            all_goals
              rw [modJob_job, hj, modJob_job, hs1, modJob_job]
            · exact hmask
            · exact hr

/-- A reserving job forced to run on an unknown host is refused, and has lost its reservation. -/
theorem runJob_bad_host_reserved : let env : RunEnv := { getJobData := fun _ => some 0, getHostData := fun _ => none }
    let s : Mbd := reserveSlots {} 1 0 (allocHosts 0 1 [(1, 1)]
      (handleNewJob {} 1 false 0 (initJData 1 0 { queue := 0 }) Mbd.blank))
    let r := runJob {} env { jobId := 1, hostname := ["nohost"] } { mbd := s }
    r.1 = .BAD_HOST ∧ (s.jobs 0).jStatus.reserve = true ∧ (s.jobs 0).hPtr = [1] ∧
      (r.2.mbd.jobs 0).jStatus.reserve = false ∧ (r.2.mbd.jobs 0).hPtr = [] ∧
      (s.hosts 1).count .numRESERVE = 1 ∧ (r.2.mbd.hosts 1).count .numRESERVE = 0 := by
  decide +kernel

end

end OpenLava

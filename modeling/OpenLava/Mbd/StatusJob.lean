import OpenLava.Mbd.Touches

/-!
# Status messages

The messages of sbatchd are numbered, and `statusJob` discards one whose number is behind that of the last message it
has accepted for the job. The messages of a failed start and of the end of the post-execution command are acted upon
before their number is looked at.
-/

namespace OpenLava

open Function

def LSBE_STOP_JOB : Lsbe := .other 5
def LSBE_SBATCHD : Lsbe := .other 48
def LSBE_LOCK_JOB : Lsbe := .other 84

/-- `INFINIT_INT` -/
def MAX_SEQ_NUM : Int := 0x7fffffff

/-- `actStatus`: how far a signal or a checkpoint has come. -/
inductive ActStatus where
  | ACT_NO | ACT_START | ACT_DONE | ACT_FAIL | other
  deriving DecidableEq, Repr

/-- `sbdReply` of a status message, as far as it is told apart. -/
inductive ReportReply where
  | ERR_NO_ERROR | ERR_HOST_BOOT | other
  deriving DecidableEq, Repr

/-- `struct statusReq` -/
structure StatusReq where
  (jobId seq : Int)
  newStatus : JStatus
  reason : Nat := 0
  actStatus : ActStatus := .ACT_NO
  chkpnt : Bool := false -- `sigValue` is `SIG_CHKPNT` or `SIG_CHKPNT_COPY`
  sbdReply : ReportReply := .ERR_NO_ERROR
  (actPid jobPid jobPGid : Int := 0)
  (execHome execCwd execUsername : String := "")
  execUid : Int := 0
  deriving DecidableEq, Repr

/-- No host is known, the host is not a batch server, or it is one. -/
inductive Sender where
  | noHost | notServer
  | server (hData : HRef)
  deriving DecidableEq, Repr

/-- A record in `jDataList[ZJL]`: a job that may still run, though it was started again. -/
structure ZombieJob where
  jobId : Int
  hPtr : List HRef
  jobPid : Int
  deriving DecidableEq, Repr

/-- Whether sbatchd answers, and `sbdFail`. -/
structure SbdStat where
  (unreach unavail : Bool := false)
  sbdFail : Nat := 0
  deriving DecidableEq, Repr

/-- What `struct jData` keeps of the processes of the job. -/
structure JobRun where
  waitSwitch : Bool := false -- `JFLAG_WAIT_SWITCH`
  (jobPid jobPGid : Int := 0)
  (execHome execCwd execUsername : Option String := none)
  (execUid initFailCount : Int := 0)
  deriving DecidableEq, Repr

structure StatusState where
  mbd : Mbd
  zombies : List ZombieJob := [] -- `jDataList[ZJL]`, from the back
  sbds : HRef → SbdStat := fun _ => {}
  runs : JobRef → JobRun := fun _ => {}

/-- What `statusJob` asks other parts of the daemon. -/
structure StatusEnv where
  now : Int := 0
  getJobData : Int → Option JobRef
  (shouldLockJob ususpPendingEvent terminatePendingEvent : Bool := false)

namespace StatusState

def modJob (s : StatusState) (j : JobRef) (f : JData → JData) : StatusState := { s with mbd := s.mbd.modJob j f }

def modRun (s : StatusState) (j : JobRef) (f : JobRun → JobRun) : StatusState :=
  { s with runs := update s.runs j (f (s.runs j)) }

/-- `jStatusChange` for a change that is logged. -/
def change (s : StatusState) (C : Config) (now : Int) (j : JobRef) (newStatus : Mask) : StatusState :=
  { s with mbd := jStatusChange C now j newStatus 0 s.mbd }

end StatusState

def isInZomJobList (hData : HRef) (statusReq : StatusReq) (zombies : List ZombieJob) : Option ZombieJob :=
  zombies.find? fun z => z.jobId = statusReq.jobId ∧ (z.hPtr ≠ [] → z.hPtr.head? = some hData) ∧
    z.jobPid = statusReq.jobPid

/-- The loop of `hostJobs` for a host that answers again, up to the number of used slots. -/
def hostJobsUp (hp : HRef) (numJobs : Int) : List JobRef → Int → Mbd → Mbd
  | [], _, s => s
  | j :: jobs, numFound, s =>
    if numJobs ≤ numFound then s
    else if (s.jobs j).hPtr.head? ≠ some hp then hostJobsUp hp numJobs jobs numFound s
    else hostJobsUp hp numJobs jobs (numFound + 1)
      (if (s.jobs j).jStatus.mask.unkwn then s.modJob j (·.withUnkwn false) else s)

/-- `hStatChange` with the new status 0. -/
def hStatChange (hp : HRef) (s : StatusState) : StatusState :=
  let sbd := s.sbds hp
  let count := (s.mbd.hosts hp).count
  let hostJobs := hostJobsUp hp (count .numRUN + count .numSSUSP + count .numUSUSP) (s.mbd.lists .SJL).entries.reverse 0
  if sbd.unreach then
    { s with mbd := hostJobs s.mbd, sbds := update s.sbds hp { sbd with unreach := false, sbdFail := 0 } }
  else if sbd.unavail then
    { s with mbd := hostJobs s.mbd, sbds := update s.sbds hp { sbd with unavail := false, sbdFail := 0 } }
  else s

/-- `|` of two status words -/
def Mask.or (m n : Mask) : Mask where
  pend := m.pend || n.pend
  psusp := m.psusp || n.psusp
  run := m.run || n.run
  ssusp := m.ssusp || n.ssusp
  ususp := m.ususp || n.ususp
  exit := m.exit || n.exit
  done := m.done || n.done
  pdone := m.pdone || n.pdone
  perr := m.perr || n.perr
  wait := m.wait || n.wait
  unkwn := m.unkwn || n.unkwn

def JStatus.or (s n : JStatus) : JStatus where
  mask := s.mask.or n.mask
  reserve := s.reserve || n.reserve
  mig := s.mig || n.mig
  modifyOnce := s.modifyOnce || n.modifyOnce
  zombie := s.zombie || n.zombie
  preExec := s.preExec || n.preExec
  signal := s.signal || n.signal
  kill := s.kill || n.kill
  chkpntedOnce := s.chkpntedOnce || n.chkpntedOnce

def JData.withMig (jp : JData) (b : Bool) : JData := { jp with jStatus := { jp.jStatus with mig := b } }

/-- `IS_RUN_JOB_CMD` -/
def JStatus.isRunJobCmd (s : JStatus) : Bool := s.mask.run && !s.preExec

/-- A message on its way through `statusJob`, with the status the job had. -/
structure StatusCall where
  statusReq : StatusReq
  oldStatus : JStatus
  stopit : Bool := false
  s : StatusState

/-- How a message leaves `statusJob` before the sequence numbers, unless it comes to them. -/
inductive Exit where
  | reply (cc : Lsbe) (s : StatusState)
  | handleJobJCCA (c : StatusCall)

section

variable (C : Config) (env : StatusEnv) (j : JobRef) (hData : HRef)

def checkReport (c : StatusCall) : Except Exit StatusCall :=
  let newStatus := c.statusReq.newStatus
  if ¬ newStatus.mask.isStart ∧ ¬ newStatus.mask.isFinish ∧ ¬ newStatus.mask.pend then
    .error (.reply LSBE_SBATCHD c.s)
  else if newStatus.mig ∧ c.statusReq.actPid = 0 then .error (.reply LSBE_SBATCHD c.s)
  else .ok c

def StatusReq.startFailed (r : StatusReq) : Bool :=
  r.newStatus.mask.pend && (r.reason == PEND_JOB_START_FAIL || r.reason == PEND_JOB_NO_FILE)

/-- `statusReq->newStatus = JOB_STAT_EXIT` -/
def StatusReq.ended (r : StatusReq) : StatusReq := { r with newStatus := { mask := .EXIT } }

def failedStart (c : StatusCall) : Except Exit StatusCall :=
  if c.statusReq.startFailed then
    let jp := c.s.mbd.jobs j
    let s := c.s.modJob j fun jp => { jp with newReason := c.statusReq.reason }
    let s := if jp.jStatus.mask.isStart ∧ jp.hPtr.head? = some hData then s.change C env.now j .PEND else s
    if (isInZomJobList hData c.statusReq s.zombies).isSome then
      .ok { c with s, statusReq := c.statusReq.ended }
    else .error (.reply .NO_ERROR s)
  else .ok c

def startedPending (c : StatusCall) : Except Exit StatusCall :=
  let jp := c.s.mbd.jobs j
  if jp.jStatus.mask.isPend ∧ c.statusReq.newStatus.mask.isStart then
    if (isInZomJobList hData c.statusReq c.s.zombies).isSome then .error (.handleJobJCCA c)
    else
      let s := c.s.modJob j fun jp => { jp with
        hPtr := if jp.hPtr = [] then [hData] else jp.hPtr
        jStatus := { jp.jStatus with preExec := jp.jStatus.preExec || jp.jobBill.preExec } }
      let s := s.modRun j fun run => { run with jobPid := c.statusReq.jobPid, jobPGid := c.statusReq.jobPGid }
      let s := s.change C env.now j .RUN
      .ok { c with s, stopit := c.oldStatus.mask.psusp && !c.statusReq.newStatus.mask.isFinish }
  else .ok c

def startedJob (c : StatusCall) : Except Exit StatusCall :=
  let r := c.statusReq
  if (c.s.mbd.jobs j).jStatus.mask.isStart ∧ r.newStatus.mask.isStart then
    let s := if (c.s.runs j).jobPid = 0 then
        c.s.modRun j fun run => { run with jobPid := r.jobPid, jobPGid := r.jobPGid }
      else c.s
    if (s.runs j).execHome = none ∧ r.execCwd ≠ "" ∧ r.execHome ≠ "" then
      let s := s.modRun j fun run => { run with
        execCwd := some r.execCwd, execHome := some r.execHome, execUsername := some r.execUsername
        execUid := r.execUid, jobPid := r.jobPid, jobPGid := r.jobPGid }
      if c.oldStatus = r.newStatus then .error (.reply .NO_ERROR s) else .ok { c with s }
    else .ok { c with s }
  else .ok c

def endMig (r : StatusReq) (s : StatusState) : StatusState :=
  let jp := s.mbd.jobs j
  if r.actStatus ≠ .ACT_NO ∧ jp.jStatus.mask.isPend ∧ jp.jobBill.rerunnable then s.modJob j (·.withMig false) else s

def endedZombie (c : StatusCall) : Except Exit StatusCall :=
  let r := c.statusReq
  let jp := c.s.mbd.jobs j
  if r.newStatus.mask.isFinish ∨ r.newStatus.mask.isPostFinish ∨ r.newStatus.mask.isPend ∨
      (r.actStatus ≠ .ACT_NO ∧ ((jp.jStatus.mask.isPend ∨ jp.jStatus.mask.isFinish) ∨ jp.hPtr.head? ≠ some hData) ∧
        jp.jobBill.rerunnable) then
    let s := endMig j r c.s
    match isInZomJobList hData r s.zombies with
    | none => .ok { c with s }
    | some z =>
      let s := { s with zombies := s.zombies.erase z }
      let jp := s.mbd.jobs j
      if jp.newReason = EXIT_KILL_ZOMBIE ∧ jp.jStatus.zombie ∧ s.zombies.all (fun z => z.jobId ≠ jp.jobId) then
        .error (.reply .NO_ERROR (s.modJob j fun jp => { jp.withZombie false with newReason := 0 }))
      else .error (.reply .NO_ERROR s)
  else .ok c

/-- From the check of the reported status to that of the sequence number. -/
def beforeCheck (c : StatusCall) : Except Exit StatusCall := do
  let c ← checkReport c
  let c ← failedStart C env j hData c
  let c ← startedPending C env j hData c
  let c ← startedJob j c
  endedZombie j hData c

end

section

variable (C : Config) (env : StatusEnv) (j : JobRef) (hData : HRef)

def reportAction (r : StatusReq) (s : StatusState) : StatusState :=
  if r.chkpnt then
    match r.actStatus with
    | .ACT_START => s.modJob j (·.withMig r.newStatus.mig)
    | .ACT_DONE =>
      s.modJob j fun jp => { jp with jStatus := { jp.jStatus with
        mig := r.newStatus.mig, signal := false
        chkpntedOnce := jp.jStatus.chkpntedOnce || r.sbdReply == .ERR_NO_ERROR } }
    | _ =>
      let s := if (s.mbd.jobs j).jStatus.reserve then { s with mbd := dropReserve j s.mbd } else s
      s.modJob j fun jp => { jp with jStatus := { jp.jStatus with
        mig := jp.jStatus.mig && r.newStatus.mig, signal := false } }
  else
    match r.actStatus with
    | .ACT_DONE | .ACT_FAIL => s.modJob j fun jp => { jp with jStatus := { jp.jStatus with signal := false } }
    | _ => s

/-- The reason of a suspension; a job to be resumed by mbatchd gets `SUSP_MBD_LOCK`. -/
def suspReason (r : StatusReq) (jp : JData) : JData :=
  if ¬ r.newStatus.mask.isSusp then jp
  else if r.reason &&& SUSP_MBD_LOCK = 0 ∧ jp.newReason &&& SUSP_MBD_LOCK = 0 then
    { jp with newReason := if env.shouldLockJob then r.reason ||| SUSP_MBD_LOCK else r.reason }
  else if jp.newReason &&& SUSP_MBD_LOCK = 0 then { jp with newReason := r.reason }
  else jp

def lockReply (jp : JData) : Lsbe := if jp.newReason &&& SUSP_MBD_LOCK ≠ 0 then LSBE_LOCK_JOB else .NO_ERROR

def reportPend (r : StatusReq) (s : StatusState) : Option (Mask × StatusState) :=
  let jp := s.mbd.jobs j
  let withReason (newReason : Nat) (s : StatusState) := s.modJob j fun jp => { jp with newReason }
  if jp.jStatus.preExec ∨ r.reason = PEND_QUE_PRE_FAIL then some (r.newStatus.mask, withReason r.reason s)
  else if jp.jStatus.mig then some (r.newStatus.mask, withReason PEND_JOB_MIG s)
  else if jp.jStatus.mask.psusp then none
  else
    let s := withReason r.reason s
    if r.reason = PEND_NO_MAPPING ∨ r.reason = PEND_RMT_PERMISSION then some (r.newStatus.mask, s)
    else if env.ususpPendingEvent then some (.PSUSP, s.change C env.now j .PEND)
    else if r.reason = PEND_SBD_JOB_REQUEUE then some (r.newStatus.mask, s)
    else if env.terminatePendingEvent then some (.EXIT, s.change C env.now j .PEND)
    else if r.reason = PEND_JOB_NO_PASSWD then
      let s := (s.change C env.now j r.newStatus.mask).modRun j fun run => { run with initFailCount := 0 }
      some (.PSUSP, withReason PEND_JOB_NO_PASSWD s)
    else if r.reason = PEND_QUE_PRE_FAIL ∨ r.reason = PEND_JOB_PRE_EXEC then some (r.newStatus.mask, s)
    else
      let s := s.modRun j fun run => { run with initFailCount := run.initFailCount + 1 }
      if (s.runs j).initFailCount < 20 then some (r.newStatus.mask, s)
      else
        let s := (s.change C env.now j r.newStatus.mask).modRun j fun run => { run with initFailCount := 0 }
        some (.PSUSP, withReason PEND_USER_STOP s)

/-- For a job reported as finished: after a boot of its host a rerunnable one becomes a zombie. -/
def reportFinish (r : StatusReq) (jp : JData) : JData :=
  if r.newStatus.mask.exit ∧ r.sbdReply = .ERR_HOST_BOOT ∧ jp.jobBill.rerunnable then
    let jp := jp.withZombie true
    if jp.jobBill.chkpntable ∧ jp.jStatus.chkpntedOnce then
      { jp with jobBill := { jp.jobBill with restart := true, restartForce := true }, newReason := EXIT_RESTART }
    else { jp with newReason := EXIT_RERUN }
  else
    { jp with jobBill := { jp.jobBill with restart := false, restartForce := false }, newReason := EXIT_NORMAL }

/-- The end of `statusJob`: the job gets the reported status. -/
def reportStatus (c : StatusCall) (newStatus : Mask) (s : StatusState) : Lsbe × StatusState :=
  let r := c.statusReq
  let s := s.change C env.now j newStatus
  let s :=
    if c.oldStatus.preExec ∧ ({ r.newStatus with mask := newStatus } : JStatus).isRunJobCmd then
      (s.modJob j fun jp => { jp with jStatus := { jp.jStatus with preExec := false } }).modRun j fun run =>
        { run with
          jobPid := r.jobPid, jobPGid := r.jobPGid, execUid := r.execUid
          execUsername := if r.execUsername = "" then none else some r.execUsername }
    else s
  (if c.stopit then LSBE_STOP_JOB else lockReply (s.mbd.jobs j), s)

/-- `statusJob` from the label `handleJobJCCA` on. -/
def handleJobJCCA (c : StatusCall) : Lsbe × StatusState :=
  let r := c.statusReq
  let s := if r.actStatus ≠ .ACT_NO then reportAction j r c.s else c.s
  if r.actStatus ≠ .ACT_NO ∧ (s.mbd.jobs j).jStatus.mask.isPend ∧ (isInZomJobList hData r s.zombies).isSome ∧
      r.newStatus.mask.isStart then
    (.NO_ERROR, s)
  else
    let s := if r.newStatus.mig then s else s.modJob j (·.withMig false)
    let s := s.modJob j (suspReason env r)
    let jp := s.mbd.jobs j
    if jp.jStatus.mask.known = r.newStatus.mask.known ∧ ¬ (jp.jStatus.preExec ∧ r.newStatus.isRunJobCmd) then
      (lockReply jp, s)
    else if r.newStatus.mask.pend then
      match reportPend C env j r s with
      | none => (.NO_ERROR, s)
      | some (newStatus, s) => reportStatus C env j c newStatus s
    else if r.newStatus.mask.isFinish then
      reportStatus C env j c r.newStatus.mask (s.modJob j (reportFinish r))
    else reportStatus C env j c r.newStatus.mask s

/-- From another host than the one the job runs on, or with a number behind the last one. -/
def obsolete (r : StatusReq) (jp : JData) : Bool :=
  jp.hPtr.head? ≠ some hData ∨ (r.seq < jp.nextSeq ∧ jp.nextSeq - r.seq < MAX_SEQ_NUM / 2)

/-- `jpbw->nextSeq = statusReq->seq++`: the number itself, not the next one. -/
def takeSeq (r : StatusReq) (jp : JData) : JData :=
  { jp with nextSeq := if r.seq ≥ MAX_SEQ_NUM ∨ r.newStatus.mask.pend then 1 else r.seq }

end

/-- The reply and the state; `accepted`: its number has been taken. -/
structure Handled where
  reply : Lsbe
  s : StatusState
  accepted : Bool := false

def statusJob (C : Config) (env : StatusEnv) (sender : Sender) (statusReq : StatusReq) (s : StatusState) : Handled :=
  match env.getJobData statusReq.jobId with
  | none => ⟨.NO_JOB, s, false⟩
  | some j =>
    if (s.mbd.jobs j).jStatus.mask.isPend ∧ (s.runs j).waitSwitch then
      ⟨.NO_ERROR, if statusReq.newStatus.mask.isFinish then s.modRun j fun run => { run with waitSwitch := false } else s,
        false⟩
    else
      match sender with
      | .noHost => ⟨.NO_JOB, s, false⟩
      | .notServer => ⟨LSBE_SBATCHD, s, false⟩
      | .server hData =>
        let s := hStatChange hData s
        if statusReq.newStatus.mask.isPostFinish then
          if (s.mbd.jobs j).jStatus.mask.done then
            ⟨.NO_ERROR, s.modJob j fun jp => { jp with jStatus := jp.jStatus.or statusReq.newStatus }, false⟩
          else ⟨.NO_ERROR, s, false⟩
        else
          match beforeCheck C env j hData { statusReq, oldStatus := (s.mbd.jobs j).jStatus, s } with
          | .error (.reply cc s) => ⟨cc, s, false⟩
          | .error (.handleJobJCCA c) =>
            let (reply, s) := handleJobJCCA C env j hData c
            ⟨reply, s, false⟩
          | .ok c =>
            if obsolete hData c.statusReq (c.s.mbd.jobs j) then ⟨.NO_ERROR, c.s, false⟩
            else
              let c := { c with s := c.s.modJob j (takeSeq c.statusReq) }
              if (c.s.mbd.jobs j).jStatus.mask.isFinish then ⟨.NO_ERROR, c.s, true⟩
              else
                let (reply, s) := handleJobJCCA C env j hData c
                ⟨reply, s, true⟩

/-- The status as `jStatusChange` compares it. -/
def JData.status (jp : JData) : Mask := jp.jStatus.mask.known

/-- What a message of no consequence keeps: the status, up to `JOB_STAT_UNKWN`, the hosts and the number. -/
structure SameRun (jp jp' : JData) : Prop where
  status : jp'.status = jp.status
  hPtr : jp'.hPtr = jp.hPtr
  nextSeq : jp'.nextSeq = jp.nextSeq

namespace SameRun

theorem refl (jp : JData) : SameRun jp jp := ⟨rfl, rfl, rfl⟩

theorem trans (h : SameRun jp jp') (h' : SameRun jp' jp'') : SameRun jp jp'' :=
  ⟨h'.status.trans h.status, h'.hPtr.trans h.hPtr, h'.nextSeq.trans h.nextSeq⟩

theorem modJob {s : StatusState} (h : SameRun jp (s.mbd.jobs j))
    (hf : ∀ jp, SameRun jp (f jp)) : SameRun jp ((s.modJob j f).mbd.jobs j) := by
  rw [StatusState.modJob, modJob_job]
  exact h.trans (hf _)

theorem isPend (h : SameRun jp jp') : jp'.jStatus.mask.isPend = jp.jStatus.mask.isPend :=
  (congrArg Mask.isPend h.status :)

theorem isStart (h : SameRun jp jp') : jp'.jStatus.mask.isStart = jp.jStatus.mask.isStart :=
  (congrArg Mask.isStart h.status :)

theorem done (h : SameRun jp jp') : jp'.jStatus.mask.done = jp.jStatus.mask.done :=
  (congrArg Mask.done h.status :)

end SameRun

theorem hostJobsUp_same (hp : HRef) (numJobs : Int) (jobs : List JobRef) (numFound : Int) (s : Mbd) (j : JobRef) :
    SameRun (s.jobs j) ((hostJobsUp hp numJobs jobs numFound s).jobs j) := by
  induction jobs generalizing numFound s with
  | nil => exact .refl _
  | cons i jobs ih =>
    unfold hostJobsUp
    split_ifs
    · exact .refl _
    · exact ih _ _
    · refine SameRun.trans ?_ (ih _ _)
      by_cases hi : j = i
      · subst hi
        rw [modJob_job]
        exact ⟨rfl, rfl, rfl⟩
      · rw [Mbd.modJob, setJob_other _ _ _ _ hi]
        exact .refl _
    · exact ih _ _

theorem hStatChange_same (hp : HRef) (s : StatusState) (j : JobRef) :
    SameRun (s.mbd.jobs j) ((hStatChange hp s).mbd.jobs j) := by
  unfold hStatChange
  dsimp only
  split_ifs
  · exact hostJobsUp_same ..
  · exact hostJobsUp_same ..
  · exact .refl _

section

theorem jStatusChange_pend (now : Int) (hs : (s.jobs j).jStatus.mask.isStart) :
    ((jStatusChange C now j .PEND 0 s).jobs j).jStatus.mask = .PEND := by
  have hne : Mask.PEND.known ≠ (s.jobs j).jStatus.mask.known := by
    intro heq
    have : Mask.PEND.isStart = (s.jobs j).jStatus.mask.isStart := (congrArg Mask.isStart heq :)
    rw [hs] at this
    exact absurd this (by decide)
  have hmove := ((Touches.refl true false j (setStatus j .PEND (resetReserve j .PEND s))).moveJob C now (s.jobs j).jStatus
    .PEND).mask rfl
  rw [setStatus_mask] at hmove
  unfold jStatusChange
  rw [if_neg hne]
  simp only [countJob, decide_true, or_true, if_true]
  split_ifs
  · rw [modJob_job, updCounters_jobs]
    exact hmove
  · rw [updCounters_jobs]
    exact hmove

theorem resetReserve_nextSeq (n : Mask) : ((resetReserve j n s).jobs j).nextSeq = (s.jobs j).nextSeq := by
  have hf : ((freeReserveSlots j s).jobs j).nextSeq = (s.jobs j).nextSeq := by
    by_cases hr : (s.jobs j).jStatus.reserve
    · rw [freeReserveSlots_jobs j s hr]
      simp [JData.withReserve]
    · simp [freeReserveSlots, hr]
  have hd : ∀ s : Mbd, ((dropReserve j s).jobs j).nextSeq = (s.jobs j).nextSeq := fun s => by
    rw [dropReserve_jobs, modJob_job]
    rfl
  unfold resetReserve
  dsimp only
  split_ifs <;> simp [hf, hd]

theorem restoreSub_nextSeq (jp : JData) : (jp.restoreSub C).nextSeq = jp.nextSeq := by
  unfold JData.restoreSub changeJobParams
  split
  · split_ifs <;> rfl
  · rfl

theorem moveJob_nextSeq (now : Int) (old : JStatus) (hn : n.pend = false) :
    ((moveJob C now j old n s).jobs j).nextSeq = (s.jobs j).nextSeq := by
  have hr : ∀ jp : JData, jp.exitReason.nextSeq = jp.nextSeq := fun jp => by
    unfold JData.exitReason
    split_ifs <;> rfl
  unfold moveJob
  split_ifs with h1 h2 h3 h4
  · simp [moveToStart]
  · simp [moveToFinish, handleFinishJob, restoreSub_nextSeq, JData.markRequeue, hr]
  · simp [hn] at h3
  · simp
  · rfl

theorem jStatusChange_nextSeq (now : Int) (hn : n.pend = false) :
    ((jStatusChange C now j n 0 s).jobs j).nextSeq = (s.jobs j).nextSeq := by
  have hset : ∀ s : Mbd, ((setStatus j n s).jobs j).nextSeq = (s.jobs j).nextSeq := fun s => by
    rw [setStatus_job]
    unfold JData.clearTimes
    split_ifs <;> rfl
  unfold jStatusChange
  by_cases heq : n.known = (s.jobs j).jStatus.mask.known
  · rw [if_pos heq]
  · rw [if_neg heq, if_neg (by simp [hn])]
    simp only [countJob, decide_true, or_true, if_true, updCounters_jobs]
    rw [moveJob_nextSeq now _ hn, hset, resetReserve_nextSeq]

end

section

variable {j : JobRef} {hData : HRef}

def StatusReq.valid (r : StatusReq) : Bool :=
  (r.newStatus.mask.isStart || r.newStatus.mask.isFinish || r.newStatus.mask.pend) && !(r.newStatus.mig && r.actPid == 0)

/-- The message takes a job back to PEND whatever its number is. -/
def FailsStart (r : StatusReq) (hData : HRef) (jp : JData) : Prop :=
  r.valid ∧ r.startFailed ∧ jp.jStatus.mask.isStart ∧ jp.hPtr.head? = some hData

theorem checkReport_eq (c : StatusCall) :
    checkReport c = if c.statusReq.valid then .ok c else .error (.reply LSBE_SBATCHD c.s) := by
  unfold checkReport StatusReq.valid
  dsimp only
  cases c.statusReq.newStatus.mask.isStart <;> cases c.statusReq.newStatus.mask.isFinish <;>
    cases c.statusReq.newStatus.mask.pend <;> cases c.statusReq.newStatus.mig <;> simp

theorem startedPending_of_not_pend (h : (c.s.mbd.jobs j).jStatus.mask.isPend = false ∨
    c.statusReq.newStatus.mask.isStart = false) : startedPending C env j hData c = .ok c := by
  unfold startedPending
  rcases h with h | h <;> simp [h]

theorem startedJob_cases (j : JobRef) (c : StatusCall) : ∃ s, s.mbd = c.s.mbd ∧ s.zombies = c.s.zombies ∧
    (startedJob j c = .ok { c with s } ∨ startedJob j c = .error (.reply .NO_ERROR s)) := by
  have hpid : ∀ run : JobRun → JobRun, (c.s.modRun j run).mbd = c.s.mbd ∧ (c.s.modRun j run).zombies = c.s.zombies :=
    fun _ => ⟨rfl, rfl⟩
  unfold startedJob
  dsimp only
  by_cases hsta : (c.s.mbd.jobs j).jStatus.mask.isStart ∧ c.statusReq.newStatus.mask.isStart
  · generalize hs : (if (c.s.runs j).jobPid = 0 then _ else c.s : StatusState) = s
    have hsame : s.mbd = c.s.mbd ∧ s.zombies = c.s.zombies := by
      subst hs
      split_ifs
      · exact hpid _
      · exact ⟨rfl, rfl⟩
    split_ifs
    · refine ⟨_, ?_, ?_, .inr rfl⟩
      · exact hsame.1
      · exact hsame.2
    · refine ⟨_, ?_, ?_, .inl rfl⟩
      · exact hsame.1
      · exact hsame.2
    · exact ⟨s, hsame.1, hsame.2, .inl rfl⟩
  · rw [if_neg hsta]
    exact ⟨c.s, rfl, rfl, .inl rfl⟩

theorem endMig_same (j : JobRef) (r : StatusReq) (s : StatusState) :
    SameRun (s.mbd.jobs j) ((endMig j r s).mbd.jobs j) ∧ (endMig j r s).zombies = s.zombies := by
  unfold endMig
  dsimp only
  split_ifs
  · exact ⟨(SameRun.refl _).modJob fun _ => ⟨rfl, rfl, rfl⟩, rfl⟩
  · exact ⟨.refl _, rfl⟩

theorem endedZombie_cases (j : JobRef) (hData : HRef) (c : StatusCall) : ∃ s, SameRun (c.s.mbd.jobs j) (s.mbd.jobs j) ∧
      (endedZombie j hData c = .error (.reply .NO_ERROR s) ∨ endedZombie j hData c = .ok { c with s } ∧
        (c.statusReq.newStatus.mask.isFinish → isInZomJobList hData c.statusReq c.s.zombies = none)) := by
  unfold endedZombie
  dsimp only
  split
  case isFalse he => exact ⟨c.s, .refl _, .inr ⟨rfl, fun hf => absurd (.inl hf) he⟩⟩
  have hs := endMig_same j c.statusReq c.s
  generalize endMig j c.statusReq c.s = s at hs ⊢
  cases hz : isInZomJobList hData c.statusReq s.zombies with
  | none => exact ⟨s, hs.1, .inr ⟨rfl, fun _ => hs.2 ▸ hz⟩⟩
  | some z =>
    dsimp only
    split_ifs
    · refine ⟨_, ?_, .inl rfl⟩
      exact SameRun.modJob hs.1 fun _ => ⟨rfl, rfl, rfl⟩
    · refine ⟨_, ?_, .inl rfl⟩
      exact hs.1

theorem startedJob_endedZombie (j : JobRef) (hData : HRef) (c : StatusCall) : ∃ s, SameRun (c.s.mbd.jobs j) (s.mbd.jobs j) ∧
      ((startedJob j c >>= endedZombie j hData) = .error (.reply .NO_ERROR s) ∨
        (startedJob j c >>= endedZombie j hData) = .ok { c with s } ∧
          (c.statusReq.newStatus.mask.isFinish → isInZomJobList hData c.statusReq c.s.zombies = none)) := by
  obtain ⟨s1, hmbd, hz, hs | hs⟩ := startedJob_cases j c
  · obtain ⟨s, hsame, he⟩ := endedZombie_cases j hData { c with s := s1 }
    rw [hmbd] at hsame
    rw [hz] at he
    refine ⟨s, hsame, ?_⟩
    rw [hs]
    exact he
  · refine ⟨s1, by rw [hmbd]; exact .refl _, .inl ?_⟩
    rw [hs]
    rfl

theorem failedStart_cases (C : Config) (env : StatusEnv) (j : JobRef) (hData : HRef)
    (h : c.statusReq.startFailed) : ∃ s, s.zombies = c.s.zombies ∧
      ((c.s.mbd.jobs j).jStatus.mask.isStart ∧ (c.s.mbd.jobs j).hPtr.head? = some hData →
        (s.mbd.jobs j).status = .PEND) ∧
      (¬ ((c.s.mbd.jobs j).jStatus.mask.isStart ∧ (c.s.mbd.jobs j).hPtr.head? = some hData) →
        SameRun (c.s.mbd.jobs j) (s.mbd.jobs j)) ∧
      failedStart C env j hData c = if (isInZomJobList hData c.statusReq c.s.zombies).isSome then
          .ok { c with s, statusReq := c.statusReq.ended }
        else .error (.reply .NO_ERROR s) := by
  unfold failedStart
  rw [if_pos h]
  dsimp only
  by_cases hh : (c.s.mbd.jobs j).jStatus.mask.isStart ∧ (c.s.mbd.jobs j).hPtr.head? = some hData
  · rw [if_pos hh]
    refine ⟨_, ?_, fun _ => ?_, fun hn => absurd hh hn, rfl⟩
    · rfl
    · refine congrArg Mask.known (jStatusChange_pend _ ?_)
      rw [StatusState.modJob, modJob_job]
      exact hh.1
  · rw [if_neg hh]
    refine ⟨_, ?_, fun hy => absurd hy hh, fun _ => ?_, rfl⟩
    · rfl
    · exact (SameRun.refl _).modJob fun _ => ⟨rfl, rfl, rfl⟩

/-- Before the numbers are looked at, a failed start takes the job to PEND, and nothing else touches it. -/
theorem beforeCheck_cases (C : Config) (env : StatusEnv) (hpend : (c.s.mbd.jobs j).jStatus.mask.isPend = false) :
    (∃ cc s, beforeCheck C env j hData c = .error (.reply cc s) ∧
      (FailsStart c.statusReq hData (c.s.mbd.jobs j) → (s.mbd.jobs j).status = .PEND) ∧
      (¬ FailsStart c.statusReq hData (c.s.mbd.jobs j) → SameRun (c.s.mbd.jobs j) (s.mbd.jobs j))) ∨
    ∃ s, beforeCheck C env j hData c = .ok { c with s } ∧ ¬ FailsStart c.statusReq hData (c.s.mbd.jobs j) ∧
      SameRun (c.s.mbd.jobs j) (s.mbd.jobs j) := by
  unfold beforeCheck
  rw [checkReport_eq]
  by_cases hv : c.statusReq.valid
  swap
  · rw [if_neg hv]
    exact .inl ⟨_, _, rfl, fun h => absurd h.1 hv, fun _ => .refl _⟩
  rw [if_pos hv]
  by_cases hfai : c.statusReq.startFailed
  · obtain ⟨s, hzom, hpen, hs, hc⟩ := failedStart_cases C env j hData hfai
    have hi : FailsStart c.statusReq hData (c.s.mbd.jobs j) ↔
        (c.s.mbd.jobs j).jStatus.mask.isStart ∧ (c.s.mbd.jobs j).hPtr.head? = some hData :=
      ⟨fun h => h.2.2, fun h => ⟨hv, hfai, h⟩⟩
    rw [hi]
    by_cases hz : (isInZomJobList hData c.statusReq c.s.zombies).isSome
    · -- the zombie has ended, and the message goes no further
      rw [if_pos hz] at hc
      obtain ⟨s', hs', he | ⟨-, hn⟩⟩ := startedJob_endedZombie j hData
        { c with s, statusReq := c.statusReq.ended }
      · refine .inl ⟨.NO_ERROR, s', ?_, fun h => hs'.status.trans (hpen h), fun h => (hs h).trans hs'⟩
        show (failedStart C env j hData c >>= _) = _
        rw [hc]
        show (startedPending C env j hData _ >>= _) = _
        rw [startedPending_of_not_pend (.inr rfl)]
        exact he
      · have hzombie : isInZomJobList hData c.statusReq s.zombies = none := hn rfl
        rw [← hzom, hzombie] at hz
        exact absurd hz (by simp)
    · rw [if_neg hz] at hc
      refine .inl ⟨.NO_ERROR, s, ?_, hpen, hs⟩
      show (failedStart C env j hData c >>= _) = _
      rw [hc]
      rfl
  · have hn : ¬ FailsStart c.statusReq hData (c.s.mbd.jobs j) := fun h => hfai h.2.1
    have hf : failedStart C env j hData c = .ok c := if_neg hfai
    have hr : (Except.ok c >>= fun c => failedStart C env j hData c >>= fun c => startedPending C env j hData c >>=
        fun c => startedJob j c >>= endedZombie j hData) = (startedJob j c >>= endedZombie j hData) := by
      show (failedStart C env j hData c >>= _) = _
      rw [hf]
      show (startedPending C env j hData c >>= _) = _
      rw [startedPending_of_not_pend (.inl hpend)]
      rfl
    obtain ⟨s, hs, he | ⟨he, -⟩⟩ := startedJob_endedZombie j hData c
    · exact .inl ⟨_, s, hr.trans he, fun h => absurd h hn, fun _ => hs⟩
    · exact .inr ⟨s, hr.trans he, hn, hs⟩

end

section

variable {hData : HRef} {r : StatusReq} {s : StatusState}

theorem modJob_nextSeq (hf : ∀ jp, (f jp).nextSeq = jp.nextSeq) :
    ((s.modJob j f).mbd.jobs j).nextSeq = (s.mbd.jobs j).nextSeq := by
  rw [StatusState.modJob, modJob_job, hf]

theorem reportAction_nextSeq (j : JobRef) (r : StatusReq) (s : StatusState) :
    ((reportAction j r s).mbd.jobs j).nextSeq = (s.mbd.jobs j).nextSeq := by
  have hd : ((dropReserve j s.mbd).jobs j).nextSeq = (s.mbd.jobs j).nextSeq := by
    rw [dropReserve_jobs, modJob_job]
    rfl
  unfold reportAction
  split
  · split
    · exact modJob_nextSeq fun _ => rfl
    · exact modJob_nextSeq fun _ => rfl
    · simp only [StatusState.modJob, modJob_job]
      split_ifs
      · exact hd
      · rfl
  · split
    · exact modJob_nextSeq fun _ => rfl
    · exact modJob_nextSeq fun _ => rfl
    · rfl

theorem suspReason_nextSeq (env : StatusEnv) (r : StatusReq) (jp : JData) : (suspReason env r jp).nextSeq = jp.nextSeq := by
  unfold suspReason
  split_ifs <;> rfl

theorem reportFinish_nextSeq (r : StatusReq) (jp : JData) : (reportFinish r jp).nextSeq = jp.nextSeq := by
  unfold reportFinish
  dsimp only
  split_ifs <;> rfl

theorem reportStatus_nextSeq (hn : n.pend = false) :
    ((reportStatus C env j c n s).2.mbd.jobs j).nextSeq = (s.mbd.jobs j).nextSeq := by
  have hc : ((s.change C env.now j n).mbd.jobs j).nextSeq = (s.mbd.jobs j).nextSeq := jStatusChange_nextSeq _ hn
  unfold reportStatus
  dsimp only
  split
  · simp only [StatusState.modRun, StatusState.modJob, modJob_job]
    exact hc
  · exact hc

theorem handleJobJCCA_nextSeq (hn : c.statusReq.newStatus.mask.pend = false) :
    ((handleJobJCCA C env j hData c).2.mbd.jobs j).nextSeq = (c.s.mbd.jobs j).nextSeq := by
  have ha : ∀ b : Prop, [Decidable b] → (((if b then reportAction j c.statusReq c.s else c.s).mbd.jobs j).nextSeq =
      (c.s.mbd.jobs j).nextSeq) := fun b _ => by
    split_ifs
    · exact reportAction_nextSeq ..
    · rfl
  unfold handleJobJCCA
  dsimp only
  generalize hs : (if c.statusReq.actStatus ≠ .ACT_NO then reportAction j c.statusReq c.s else c.s) = s1
  have h1 : (s1.mbd.jobs j).nextSeq = (c.s.mbd.jobs j).nextSeq := hs ▸ ha _
  generalize hs' : (if c.statusReq.newStatus.mig then s1 else s1.modJob j (·.withMig false)) = s2
  have h2 : (s2.mbd.jobs j).nextSeq = (c.s.mbd.jobs j).nextSeq := by
    rw [← hs', ← h1]
    split_ifs
    · rfl
    · exact modJob_nextSeq fun _ => rfl
  have h3 : ((s2.modJob j (suspReason env c.statusReq)).mbd.jobs j).nextSeq = (c.s.mbd.jobs j).nextSeq :=
    (modJob_nextSeq (suspReason_nextSeq env c.statusReq)).trans h2
  simp only [hn, Bool.false_eq_true, if_false]
  split_ifs
  · exact h1
  · exact h3
  · exact (reportStatus_nextSeq hn).trans ((modJob_nextSeq (reportFinish_nextSeq c.statusReq)).trans h3)
  · exact (reportStatus_nextSeq hn).trans h3

theorem startedPending_cases (C : Config) (env : StatusEnv) (j : JobRef) (hData : HRef) (c : StatusCall) :
    startedPending C env j hData c = .error (.handleJobJCCA c) ∨
      ∃ s stopit, startedPending C env j hData c = .ok { c with s, stopit } := by
  unfold startedPending
  dsimp only
  split
  · split
    · exact .inl rfl
    · exact .inr ⟨_, _, rfl⟩
  · exact .inr ⟨c.s, c.stopit, rfl⟩

theorem beforeCheck_statusReq (hn : c.statusReq.newStatus.mask.pend = false)
    (h : beforeCheck C env j hData c = .ok c') : c'.statusReq = c.statusReq := by
  have hf : failedStart C env j hData c = .ok c := if_neg (by simp [StatusReq.startFailed, hn])
  have ht : ∀ c1 : StatusCall, (startedJob j c1 >>= endedZombie j hData) = .ok c' → c'.statusReq = c1.statusReq := by
    intro c1 hok
    obtain ⟨s, -, he | ⟨he, -⟩⟩ := startedJob_endedZombie j hData c1
    · rw [he] at hok
      cases hok
    · rw [he] at hok
      cases hok
      rfl
  unfold beforeCheck at h
  rw [checkReport_eq] at h
  split_ifs at h
  · change (failedStart C env j hData c >>= _) = _ at h
    rw [hf] at h
    change (startedPending C env j hData c >>= _) = _ at h
    obtain hj | ⟨s, stopit, hok⟩ := startedPending_cases C env j hData c
    · rw [hj] at h
      cases h
    · rw [hok] at h
      exact ht { c with s, stopit } h
  · cases h

/-- The number of the message is behind the one that was taken last. -/
def StatusReq.behind (r : StatusReq) (nextSeq : Int) : Prop := r.seq < nextSeq ∧ nextSeq - r.seq < MAX_SEQ_NUM / 2

def ActsAnyway (sender : Sender) (r : StatusReq) (jp : JData) : Prop :=
  ∃ hData, sender = .server hData ∧
    (r.newStatus.mask.isPostFinish ∧ jp.jStatus.mask.done ∧ (jp.jStatus.mask.or r.newStatus.mask).known ≠ jp.status ∨
      r.newStatus.mask.isPostFinish = false ∧ FailsStart r hData jp)

structure NotTaken (sender : Sender) (r : StatusReq) (jp jp' : JData) : Prop where
  acts : ActsAnyway sender r jp → jp'.status ≠ jp.status
  idle : ¬ ActsAnyway sender r jp → SameRun jp jp'
  nextSeq : jp'.jStatus.mask.isPend = false → jp'.nextSeq = jp.nextSeq

theorem NotTaken.of_same (h : SameRun jp jp') (hn : ¬ ActsAnyway sender r jp) : NotTaken sender r jp jp' :=
  ⟨fun ha => absurd ha hn, fun _ => h, fun _ => h.nextSeq⟩

theorem NotTaken.of_post (hup : SameRun jp jp1) (hpost : r.newStatus.mask.isPostFinish) (hd : jp.jStatus.mask.done) :
    NotTaken (.server hData) r jp { jp1 with jStatus := jp1.jStatus.or r.newStatus } := by
  have hs : ({ jp1 with jStatus := jp1.jStatus.or r.newStatus } : JData).status =
      (jp.jStatus.mask.or r.newStatus.mask).known := by
    show jp1.status.or r.newStatus.mask.known = jp.status.or r.newStatus.mask.known
    rw [hup.status]
  have hi : ActsAnyway (.server hData) r jp ↔ (jp.jStatus.mask.or r.newStatus.mask).known ≠ jp.status := by
    constructor
    · rintro ⟨_, -, ⟨-, -, hne⟩ | ⟨hn, -⟩⟩
      · exact hne
      · rw [hpost] at hn
        cases hn
    · exact fun hne => ⟨hData, rfl, .inl ⟨hpost, hd, hne⟩⟩
  refine ⟨fun ha => ?_, fun hn => ?_, fun _ => hup.nextSeq⟩
  · rw [hs]
    exact hi.mp ha
  · rw [hi, not_not] at hn
    exact ⟨hs.trans hn, hup.hPtr, hup.nextSeq⟩

theorem NotTaken.of_reply (hup : SameRun jp jp1) (hpost : r.newStatus.mask.isPostFinish = false)
    (hfai : FailsStart r hData jp1 → jp'.status = .PEND) (hsame : ¬ FailsStart r hData jp1 → SameRun jp1 jp') :
    NotTaken (.server hData) r jp jp' := by
  have hi : ActsAnyway (.server hData) r jp ↔ FailsStart r hData jp1 := by
    have hr : FailsStart r hData jp ↔ FailsStart r hData jp1 := by
      rw [FailsStart, FailsStart, hup.isStart, hup.hPtr]
    constructor
    · rintro ⟨_, hs, ⟨hn, -⟩ | ⟨-, hf⟩⟩
      · rw [hpost] at hn
        cases hn
      · cases hs
        exact hr.mp hf
    · exact fun hf => ⟨hData, rfl, .inr ⟨hpost, hr.mpr hf⟩⟩
  by_cases hf : FailsStart r hData jp1
  · have hpen := hfai hf
    refine ⟨fun _ heq => ?_, fun hn => absurd (hi.mpr hf) hn, fun hn => ?_⟩
    · -- the job was started, and now it pends
      have hs : jp.status.isStart = true := hup.isStart ▸ hf.2.2.1
      rw [← heq, hpen] at hs
      cases hs
    · have : jp'.status.isPend = false := hn
      rw [hpen] at this
      cases this
  · exact .of_same (hup.trans (hsame hf)) fun ha => hf (hi.mp ha)

/-- A message for a job that does not pend is accepted, with a number not behind, or not taken. -/
theorem statusJob_cases (C : Config) (sender : Sender) (hj : env.getJobData r.jobId = some j)
    (hpend : (s.mbd.jobs j).jStatus.mask.isPend = false) :
    ((statusJob C env sender r s).accepted = true ∧ ¬ r.behind (s.mbd.jobs j).nextSeq) ∨
    ((statusJob C env sender r s).accepted = false ∧
      NotTaken sender r (s.mbd.jobs j) ((statusJob C env sender r s).s.mbd.jobs j)) := by
  unfold statusJob
  rw [hj]
  dsimp only
  rw [if_neg (by simp [hpend])]
  cases sender with
  | noHost => exact .inr ⟨rfl, .of_same (.refl _) (by rintro ⟨_, h, -⟩; cases h)⟩
  | notServer => exact .inr ⟨rfl, .of_same (.refl _) (by rintro ⟨_, h, -⟩; cases h)⟩
  | server hData =>
    have hup := hStatChange_same hData s j
    dsimp only
    generalize hStatChange hData s = s1 at hup ⊢
    by_cases hpost : r.newStatus.mask.isPostFinish
    · rw [if_pos hpost]
      by_cases hd : (s1.mbd.jobs j).jStatus.mask.done
      · rw [if_pos hd]
        refine .inr ⟨rfl, ?_⟩
        dsimp only [StatusState.modJob]
        rw [modJob_job]
        exact .of_post hup hpost (hup.done ▸ hd)
      · rw [if_neg hd]
        refine .inr ⟨rfl, .of_same hup ?_⟩
        rintro ⟨_, -, ⟨-, hd', -⟩ | ⟨hn, -⟩⟩
        · exact hd (hup.done.trans hd')
        · exact absurd (hpost.symm.trans hn) (by decide)
    · rw [if_neg hpost]
      rw [Bool.not_eq_true] at hpost
      have hpend1 : (s1.mbd.jobs j).jStatus.mask.isPend = false := hup.isPend.trans hpend
      obtain ⟨cc, s', hc, hf, hs⟩ | ⟨s', hc, hn, hs⟩ := @beforeCheck_cases j hData
        { statusReq := r, oldStatus := (s1.mbd.jobs j).jStatus, s := s1 } C env hpend1
      · rw [hc]
        exact .inr ⟨rfl, .of_reply hup hpost hf hs⟩
      · rw [hc]
        dsimp only
        split
        · exact .inr ⟨rfl, .of_reply hup hpost (fun hf => absurd hf hn) fun _ => hs⟩
        · next ho =>
          have hb : ¬ r.behind (s.mbd.jobs j).nextSeq := by
            rw [← hup.nextSeq, ← hs.nextSeq]
            intro hb
            exact ho (by simp only [obsolete, decide_eq_true_eq]; exact .inr hb)
          split
          · exact .inl ⟨rfl, hb⟩
          · exact .inl ⟨rfl, hb⟩

/-- The number of an accepted message is taken, unless it reports PEND. -/
theorem statusJob_accepted (hj : env.getJobData r.jobId = some j) (hn : r.newStatus.mask.pend = false)
    (hmax : r.seq < MAX_SEQ_NUM) (h : (statusJob C env sender r s).accepted = true) :
    ((statusJob C env sender r s).s.mbd.jobs j).nextSeq = r.seq := by
  have ht : ∀ s : StatusState, ((s.modJob j (takeSeq r)).mbd.jobs j).nextSeq = r.seq := fun s => by
    rw [StatusState.modJob, modJob_job]
    exact if_neg (by simp [hn, hmax])
  revert h
  unfold statusJob
  rw [hj]
  dsimp only
  split
  · exact nofun
  cases sender with
  | noHost => exact nofun
  | notServer => exact nofun
  | server hData =>
    dsimp only
    split
    · split <;> exact nofun
    split
    · exact nofun
    · exact nofun
    · next c hc =>
      have hr : c.statusReq = r := beforeCheck_statusReq hn hc
      split
      · exact nofun
      have hs : ((c.s.modJob j (takeSeq c.statusReq)).mbd.jobs j).nextSeq = r.seq := by
        rw [hr]
        exact ht c.s
      split
      · exact fun _ => hs
      · exact fun _ => (handleJobJCCA_nextSeq (by rw [hr]; exact hn)).trans hs

end

/-- The state, and the number last accepted in the present run of the job. -/
structure History where
  s : StatusState
  last : Option Int := none

inductive StatusEvent where
  | message (env : StatusEnv) (sender : Sender) (statusReq : StatusReq)
  | other (f : StatusState → StatusState)

namespace StatusEvent

variable (C : Config) (j : JobRef)

def step : StatusEvent → History → History
  | message env sender r, x =>
    let out := statusJob C env sender r x.s
    { s := out.s
      last := if (out.s.mbd.jobs j).jStatus.mask.isPend then none
        else if out.accepted then (if r.newStatus.mask.pend then none else some r.seq)
        else x.last }
  | other f, x => { s := f x.s, last := if ((f x.s).mbd.jobs j).jStatus.mask.isPend then none else x.last }

def Fair : StatusEvent → History → Prop
  | message env _ r, _ => env.getJobData r.jobId = some j ∧ r.seq < MAX_SEQ_NUM
  | other f, x => (x.s.mbd.jobs j).jStatus.mask.isPend = false → ((f x.s).mbd.jobs j).jStatus.mask.isPend = false →
      ((f x.s).mbd.jobs j).nextSeq = (x.s.mbd.jobs j).nextSeq

instance (e : StatusEvent) (x : History) : Decidable (e.Fair j x) :=
  match e with
  | message env _ r => inferInstanceAs (Decidable (env.getJobData r.jobId = some j ∧ r.seq < MAX_SEQ_NUM))
  | other f => inferInstanceAs (Decidable ((x.s.mbd.jobs j).jStatus.mask.isPend = false →
      ((f x.s).mbd.jobs j).jStatus.mask.isPend = false → ((f x.s).mbd.jobs j).nextSeq = (x.s.mbd.jobs j).nextSeq))

end StatusEvent

/-- `nextSeq` is the number of the last message, not of the next. -/
def History.Tracks (j : JobRef) (x : History) : Prop :=
  ∀ n, x.last = some n → (x.s.mbd.jobs j).jStatus.mask.isPend = false ∧ (x.s.mbd.jobs j).nextSeq = n

theorem StatusEvent.step_tracks (C : Config) (j : JobRef) (e : StatusEvent) (x : History) (hx : x.Tracks j)
    (he : e.Fair j x) : (e.step C j x).Tracks j := by
  intro n hn
  cases e with
  | message env sender r =>
    obtain ⟨hj, hmax⟩ := he
    simp only [StatusEvent.step] at hn ⊢
    split_ifs at hn with hpend ha hr
    · rw [Bool.not_eq_true] at hpend hr
      obtain rfl := Option.some.inj hn
      exact ⟨hpend, statusJob_accepted hj hr hmax ha⟩
    · rw [Bool.not_eq_true] at hpend
      obtain ⟨hpend0, hs⟩ := hx n hn
      obtain ⟨hy, -⟩ | ⟨-, hnot⟩ := statusJob_cases C sender hj hpend0
      · exact absurd hy ha
      · exact ⟨hpend, (hnot.nextSeq hpend).trans hs⟩
  | other f =>
    simp only [StatusEvent.step] at hn ⊢
    split_ifs at hn with hpend
    rw [Bool.not_eq_true] at hpend
    obtain ⟨hpend0, hs⟩ := hx n hn
    exact ⟨hpend, (he hpend0 hpend).trans hs⟩

def runningJob : StatusState where
  mbd := { Mbd.blank with
    jobs := fun _ => { initJData 101 0 { queue := 0 } with jStatus := { mask := .RUN }, hPtr := [0] }
    lists := fun l => if l = .SJL then { entries := [0], numEnts := 1 } else {} }

def report (seq : Int) (newStatus : Mask) (reason : Nat) : StatusReq :=
  { jobId := 101, seq, newStatus := { mask := newStatus }, reason }

def fiveAccepted : History :=
  Run.run (StatusEvent.step {} 0) [.message { getJobData := fun _ => some 0 } (.server 0) (report 5 .RUN 0)] ⟨runningJob, none⟩

end OpenLava

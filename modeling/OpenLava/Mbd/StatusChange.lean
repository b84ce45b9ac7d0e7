import OpenLava.Mbd.JobGroups
import OpenLava.Mbd.JobLists
import OpenLava.Mbd.Reservations

/-!
# Job status changes

`jStatusChange` is the one function through which a job changes its status.
-/

namespace OpenLava

/-- A modification for one run keeps the present submission. -/
def changeJobParams (C : Config) (newSub : JobBill) (jp : JData) : JData :=
  let once := newSub.modifyOnce && !jp.jStatus.modifyOnce
  let oldSub := if once then some jp.jobBill else none
  let jp := { jp with
    jStatus := { jp.jStatus with modifyOnce := once }, jobBill := newSub, newSub := none }
  -- asked hosts that are no longer good end the function before the queue is looked up
  if !C.askedHostsOk newSub then jp
  else { jp with newSub := oldSub, qPtr := newSub.queue }

def freeExecParams (jp : JData) : JData := { jp with hPtr := [], nextSeq := 1 }

/-- `handleFinishJob`: whether the job is to be requeued; a migration ends. -/
def JData.markRequeue (oldStatus : JStatus) (jp : JData) : JData :=
  { jp with
    requeueFlag := jp.requeueFlag ||
      ((jp.jobBill.rerunnable || jp.sigDelRequeue) && (oldStatus.zombie || jp.sigDelRequeue) &&
        jp.newReason &&& EXIT_KILL_ZOMBIE == 0)
    jStatus := { jp.jStatus with mig := false } }

/-- After a run with a modification for this run the old submission returns. -/
def JData.restoreSub (C : Config) (jp : JData) : JData :=
  match jp.newSub with
  | some newSub => if jp.jobBill.modifyOnce then changeJobParams C newSub jp else jp
  | none => jp

def handleFinishJob (C : Config) (j : JobRef) (oldStatus : JStatus) (s : Mbd) : Mbd :=
  let s := s.modJob j (·.markRequeue oldStatus)
  let s := offJobList j (if oldStatus.mask.isStart then .SJL else PJLorMJL j s) s
  let s := inFinishList j s
  s.modJob j (·.restoreSub C)

/-- `jStatusChange`, the branch for a pending job that starts. -/
def moveToStart (j : JobRef) (s : Mbd) : Mbd :=
  let s := s.modJob j fun jp =>
    { jp with newReason := 0, reserveTime := 0, jStatus := { jp.jStatus with mig := false } }
  inStartJobList j (offJobList j (PJLorMJL j s) s)

def JData.exitReason (jp : JData) : JData :=
  if jp.jStatus.zombie ∨ jp.newReason = EXIT_INIT_ENVIRON ∨ jp.newReason = EXIT_NO_MAPPING ∨
    jp.newReason = EXIT_PRE_EXEC then jp
  else { jp with newReason := EXIT_NORMAL }

def moveToFinish (C : Config) (j : JobRef) (oldStatus : JStatus) (s : Mbd) : Mbd :=
  handleFinishJob C j oldStatus (s.modJob j JData.exitReason)

def JData.unstart (jp : JData) : JData :=
  if jp.newReason = PEND_JOB_PRE_EXEC ∨ jp.newReason = PEND_QUE_PRE_FAIL ∨
    jp.newReason = PEND_SBD_JOB_REQUEUE then { jp with startTime := 0 }
  else jp

/-- The branch for a started job that goes back to PEND, at the time `now`. -/
def moveToPend (C : Config) (now : Int) (j : JobRef) (s : Mbd) : Mbd :=
  let s := (listRemoveEntry .SJL j s).modJob j JData.unstart
  let pendTime := if (s.jobs j).newReason = PEND_SBD_JOB_REQUEUE then now else 0
  let s := inPendOrMigList C j now pendTime s
  s.modJob j fun jp => { jp with jStatus := { jp.jStatus with preExec := false } }

/-- The list moves of `jStatusChange`, after the new status is set. -/
def moveJob (C : Config) (now : Int) (j : JobRef) (oldStatus : JStatus) (newStatus : Mask) (s : Mbd) : Mbd :=
  if newStatus.isStart ∧ oldStatus.mask.isPend then moveToStart j s
  else if newStatus.isFinish then moveToFinish C j oldStatus s
  else if newStatus.pend ∧ oldStatus.mask.isStart then moveToPend C now j s
  else if newStatus.run then s.modJob j fun jp => { jp with newReason := 0, reserveTime := 0 }
  else s

/-- The end of `jStatusChange`: in a replay only logged changes count. -/
def countJob (C : Config) (logIt : Bool) (j : JobRef) (oldStatus newStatus : Mask) (s : Mbd) : Mbd :=
  if ¬ s.replay ∨ logIt then updCounters (s.jobs j) oldStatus s
  else if oldStatus.run ∧ oldStatus.wait ∧ (newStatus.ssusp ∨ newStatus.ususp) then
    let s := offJobList j .SJL s
    let s := s.modJob j fun jp =>
      { jp with jStatus := { mask := if newStatus.ssusp then .PEND else .PSUSP }, hPtr := [] }
    inPendJobList C j .PJL 0 s
  else s

def JData.clearTimes (jp : JData) : JData :=
  if jp.jStatus.mask.psusp ∧ jp.jobBill.hold then { jp with startTime := 0, endTime := 0 } else jp

def JData.withMask (jp : JData) (n : Mask) : JData := { jp with jStatus := jp.jStatus.setState n }

def setStatus (j : JobRef) (newStatus : Mask) (s : Mbd) : Mbd :=
  let s :=
    if 0 ≤ (s.jobs j).jobId then
      updJgrpCountByJStatus (s.jobs j).jgrpNode (some (s.jobs j).jStatus.mask) (some newStatus) s
    else s
  let s := s.modJob j (·.withMask newStatus)
  s.modJob j JData.clearTimes

theorem setStatus_job (j : JobRef) (n : Mask) (s : Mbd) :
    (setStatus j n s).jobs j = ((s.jobs j).withMask n).clearTimes := by
  unfold setStatus
  simp only [modJob_job]
  split_ifs <;> rfl

theorem setStatus_mask (j : JobRef) (n : Mask) (s : Mbd) : ((setStatus j n s).jobs j).jStatus.mask = n := by
  rw [setStatus_job]
  unfold JData.clearTimes
  split_ifs <;> rfl

/-- `jStatusChange`; `eventTime` is `LOG_IT` (zero) for a change that is logged. -/
def jStatusChange (C : Config) (now : Int) (j : JobRef) (newStatus : Mask) (eventTime : Int) (s : Mbd) : Mbd :=
  let oldStatus := (s.jobs j).jStatus
  if newStatus.known = oldStatus.mask.known then s
  else
    let s := if eventTime = 0 then resetReserve j newStatus s else s
    let s := setStatus j newStatus s
    let s := moveJob C now j oldStatus newStatus s
    let s := countJob C (eventTime = 0) j oldStatus.mask newStatus s
    -- only the branch that takes a started job back to PEND sets `freeExec`
    if ¬ (newStatus.isStart ∧ oldStatus.mask.isPend) ∧ ¬ newStatus.isFinish ∧ newStatus.pend ∧
        oldStatus.mask.isStart then
      s.modJob j freeExecParams
    else s

end OpenLava

import OpenLava.Mbd.StatusChange

/-!
# Submission, requeue, queue switch and removal

The checks of a request that only decide whether it is refused (permissions, queue membership, limits) are not modelled
one by one; their verdict is an argument.
-/

namespace OpenLava

/-- `JOB_STAT_PSUSP` where it is passed as a number. -/
def JOB_STAT_PSUSP : Int := 2

def pendPosting (num : Int) : Posting := ⟨tally num num 0 0 0 0, none⟩

def countPending (jp : JData) (s : Mbd) : Mbd :=
  if s.replay then s else post jp (pendPosting jp.maxNumProcessors) s

theorem countPending_jobs (jp : JData) (s : Mbd) : (countPending jp s).jobs = s.jobs := by
  unfold countPending
  split_ifs <;> simp

theorem countPending_live (jp : JData) (s : Mbd) : (countPending jp s).live = s.live := by
  unfold countPending
  split_ifs <;> simp

/-- For a job or array that becomes a child of the root group. -/
def putOntoTree (j : JobRef) (nodeType : NodeType) (s : Mbd) : Mbd :=
  let node : NodeRef := [j]
  let s := { s with nodes := Function.update s.nodes node { nodeType } }
  let s := s.modJob j fun jp => { jp with jgrpNode := node }
  match nodeType with
  | .JOB => updJgrpCountByJStatus node none (some (s.jobs j).jStatus.mask) s
  | .ARRAY | .GROUP => updJgrpCountByOp node 1 s

def modifyJobPriority (C : Config) (subPriority : Int) (jp : JData) : JData :=
  { jp with jobPriority := C.agedPriority subPriority jp.jobBill.submitTime }

def JData.replayPriority (C : Config) (jp : JData) : JData :=
  modifyJobPriority C (if jp.jobBill.userPriority < 0 then C.maxUserPriority / 2 else jp.jobBill.userPriority) jp

@[simp] theorem replayPriority_jStatus (C : Config) (jp : JData) : (jp.replayPriority C).jStatus = jp.jStatus := rfl

def setPriority (C : Config) (j : JobRef) (s : Mbd) : Mbd :=
  inPendJobList C j .PJL 0 (offJobList j .PJL (s.modJob j (·.replayPriority C)))

/-- `handleNewJob`; `JOB_REPLAY` is `fromLog`. -/
def handleNewJob (C : Config) (now : Int) (fromLog : Bool) (j : JobRef) (jp : JData) (s : Mbd) : Mbd :=
  let s := { s.setJob j jp with live := insert j s.live }
  let s := inPendJobList C j .PJL 0 s
  let s := putOntoTree j .JOB s
  let s := countPending (s.jobs j) s
  let s := if fromLog ∧ 0 < C.maxUserPriority then setPriority C j s else s
  if jp.jobBill.hold then
    jStatusChange C now j .PSUSP (-1) (s.modJob j fun jp => { jp with newReason := PEND_USER_STOP })
  else s

/-- One element of `handleNewJobArray`: a copy of the array's record, pending. -/
def newElement (C : Config) (jarray : JData) (s : Mbd) (e : JobRef × Int) : Mbd :=
  let s := { s.setJob e.1 { jarray with jobId := e.2 } with live := insert e.1 s.live }
  let s := inPendJobList C e.1 .PJL 0 s
  if jarray.jobBill.hold then
    s.modJob e.1 fun jp => { jp with newReason := PEND_USER_STOP, jStatus := { mask := .PSUSP } }
  else s

def countArray (jarray : JData) (numJobs : Int) (s : Mbd) : Mbd :=
  let status := if jarray.jobBill.hold then Mask.PSUSP else jarray.jStatus.mask
  let counts := fun c => if c = .NJOBS ∨ c = getIndexOfJStatus status then numJobs
    else (s.nodes jarray.jgrpNode).counts c
  let node := { s.nodes jarray.jgrpNode with counts }
  updJgrpCountByOp jarray.jgrpNode 1 { s with nodes := Function.update s.nodes jarray.jgrpNode node }

/-- The elements are the jobs; the new node's counters go to its ancestors. -/
def handleNewJobArray (C : Config) (a : JobRef) (jp : JData) (elems : List (JobRef × Int)) (s : Mbd) : Mbd :=
  let s := putOntoTree a .ARRAY (s.setJob a jp)
  let jarray := s.jobs a
  let s := elems.foldl (newElement C jarray) s
  let numJobs : Int := elems.length
  let s :=
    if s.replay then
      if 0 < C.maxUserPriority then
        -- unlike a single job, the elements keep their places in the pending list
        (a :: elems.map Prod.fst).foldl (fun s j => s.modJob j (·.replayPriority C)) s
      else s
    else post jarray (pendPosting (jarray.maxNumProcessors * numJobs)) s
  countArray jarray numJobs s

/-- A modification of the job takes effect, and its priority is set anew. -/
def JData.prepareRequeue (C : Config) (jp : JData) : JData :=
  let jp := { jp with requeueFlag := false }
  let jp := match jp.newSub with
    | some newSub => changeJobParams C newSub jp
    | none => jp
  { jp with
    urgent := false
    urgentNoStop := false
    startTime := if jp.jobBill.rerunnable ∧ jp.jStatus.mig then 0 else jp.startTime
    jobPriority :=
      if 0 < jp.jobBill.userPriority then jp.jobBill.userPriority
      else if 0 < C.maxUserPriority then C.maxUserPriority / 2 else -1 }

def suspendRequeued (j : JobRef) (s : Mbd) : Mbd :=
  if (s.jobs j).sig1Flags = JOB_STAT_PSUSP then
    let s := s.modJob j fun jp =>
      { jp with jStatus := { mask := .PSUSP }, newReason := PEND_USER_STOP, sig1Flags := 0 }
    updJgrpCountByJStatus (s.jobs j).jgrpNode (some .PEND) (some .PSUSP) s
  else s.modJob j fun jp => { jp with newReason := PEND_JOB_REQUEUED }

def handleRequeueJob (C : Config) (requeueTime : Int) (j : JobRef) (s : Mbd) : Mbd :=
  let s := s.modJob j (·.prepareRequeue C)
  let s := updJgrpCountByJStatus (s.jobs j).jgrpNode (some (s.jobs j).jStatus.mask) (some .PEND) s
  let s := s.modJob j fun jp => { jp with jStatus := { mask := .PEND } }
  let s := offJobList j .FJL s
  let s := inPendJobList C j .PJL requeueTime s
  let s := suspendRequeued j s
  let s := s.modJob j freeExecParams
  countPending (s.jobs j) s

section

variable {C : Config} {j : JobRef} {s : Mbd}

theorem suspendRequeued_status (hm : (s.jobs j).jStatus = { mask := .PEND }) : ((suspendRequeued j s).jobs j).jStatus =
    { mask := .PEND } ∨ ((suspendRequeued j s).jobs j).jStatus = { mask := .PSUSP } := by
  unfold suspendRequeued
  split_ifs
  · exact .inr (by simp [updJgrpCountByJStatus])
  · exact .inl (by simpa using hm)

theorem handleRequeueJob_status (requeueTime : Int) : ((handleRequeueJob C requeueTime j s).jobs j).jStatus =
    { mask := .PEND } ∨ ((handleRequeueJob C requeueTime j s).jobs j).jStatus = { mask := .PSUSP } := by
  unfold handleRequeueJob
  simp only [countPending_jobs, modJob_job, freeExecParams]
  apply suspendRequeued_status
  simp [inPendJobList_jobs]

theorem handleRequeueJob_live (requeueTime : Int) : (handleRequeueJob C requeueTime j s).live = s.live := by
  unfold handleRequeueJob suspendRequeued
  simp only [countPending_live, Mbd.modJob_live]
  split_ifs <;> rfl

end

structure RequeueReq where
  (requeueDone requeueExit requeueRun : Bool)
  chkPeriod : Int

/-- The loop body of `arrayRequeue`: finished is requeued at once, started is killed first. -/
def arrayRequeue1 (C : Config) (now : Int) (sigPtr : RequeueReq) (s : Mbd) (j : JobRef) : Mbd :=
  let m := (s.jobs j).jStatus.mask
  if (m.done ∧ sigPtr.requeueDone) ∨ (m.exit ∧ sigPtr.requeueExit) then
    let s := handleRequeueJob C now j s
    let s := s.modJob j fun jp => { jp with startTime := 0, endTime := 0 }
    if sigPtr.chkPeriod = JOB_STAT_PSUSP then
      let s := updJgrpCountByJStatus (s.jobs j).jgrpNode (some .PEND) (some .PSUSP) s
      (s.modJob j (·.withMask .PSUSP)).modJob j fun jp => { jp with newReason := PEND_USER_STOP }
    else s.modJob j (·.withMask .PEND)
  else if (m.isStart ∨ m.unkwn) ∧ sigPtr.requeueRun then
    s.modJob j fun jp => { jp with sigDelRequeue := true, sig1Flags := sigPtr.chkPeriod }
  else s

/-- A whole array is refused when its counters show nothing to do. -/
def arrayRequeue (C : Config) (now : Int) (sigPtr : RequeueReq) (node : Option NodeRef)
    (elems : List JobRef) (s : Mbd) : Mbd :=
  let idle := fun n =>
    ((s.nodes n).counts .NRUN = 0 ∧ sigPtr.requeueRun) ∧
      ((s.nodes n).counts .NDONE = 0 ∧ sigPtr.requeueDone) ∧
        ((s.nodes n).counts .NEXIT = 0 ∧ sigPtr.requeueExit)
  if ∃ n ∈ node, idle n then s else elems.foldl (arrayRequeue1 C now sigPtr) s

def JData.inQueue (jp : JData) (q : QRef) : JData := { jp with qPtr := q }

/-- The table of `updSwitchJob`; a pending job enters with the slots it asks for now. -/
def switchPostings (jp : JData) (oldNumReq : Int) : Option (Posting × Posting) :=
  let num := jp.numHostPtr
  let m := jp.jStatus.mask
  if m = .PEND ∨ m = .PSUSP then some (pendPosting (-oldNumReq), pendPosting jp.maxNumProcessors)
  else if m.known = .RUN then
    some (⟨tally (-num) 0 (-num) 0 0 0, hostTally (-1) (-1) 0 0 0⟩, ⟨tally num 0 num 0 0 0, hostTally 1 1 0 0 0⟩)
  else if m.known = .SSUSP then
    some (⟨tally (-num) 0 0 (-num) 0 0, hostTally (-1) 0 (-1) 0 0⟩, ⟨tally num 0 0 num 0 0, hostTally 1 0 1 0 0⟩)
  else if m.known = .USUSP then
    some (⟨tally (-num) 0 0 0 (-num) 0, hostTally (-1) 0 0 (-1) 0⟩, ⟨tally num 0 0 0 num 0, hostTally 1 0 0 1 0⟩)
  else none

def postInQueue (j : JobRef) (q : QRef) (p : Posting) (s : Mbd) : Mbd :=
  let s := s.modJob j (·.inQueue q)
  if s.replay then s else post (s.jobs j) p s

/-- Called with the job already in its new queue. -/
def updSwitchJob (j : JobRef) (qfp qtp : QRef) (oldNumReq : Int) (s : Mbd) : Mbd :=
  let reserved := (s.jobs j).jStatus.reserve
  let s :=
    if reserved then (dropReserve j (s.modJob j (·.inQueue qfp))).modJob j (·.inQueue qtp) else s
  let s :=
    match switchPostings (s.jobs j) oldNumReq with
    | none => s
    | some (off, on) => postInQueue j qtp on (postInQueue j qfp off s)
  if reserved then takeReserve j s else s

/-- Where a switch is refused: before or after `acceptJob` writes the default limit. -/
inductive SwitchVerdict where
  | refusedEarly | refusedLate | accepted
  deriving DecidableEq, Repr

def QData.defaultProcessors (qp : QData) : Nat := if 0 < qp.defProcLimit then qp.defProcLimit else 1

/-- `acceptJob`, for `SUB2_USE_DEF_PROCLIMIT`. -/
def JData.useDefaultProcessors (limit : Nat) (jp : JData) : JData :=
  if jp.jobBill.useDefProclimit then
    { jp with jobBill := { jp.jobBill with numProcessors := limit, maxNumProcessors := limit } }
  else jp

/-- The end of `switchAJob`: a started job keeps the submission for its next run. -/
def JData.noteSwitch (jp : JData) : JData :=
  { jp with
    newReason :=
      if jp.jStatus.mask.isPend ∧ ¬ jp.jStatus.mask.psusp then PEND_JOB_SWITCH else jp.newReason
    newSub := if jp.jStatus.mask.isStart then some jp.jobBill else none }

def switchAJob (C : Config) (j : JobRef) (qtp : QRef) (verdict : SwitchVerdict) (s : Mbd) : Mbd :=
  if (s.jobs j).jStatus.mask.isFinish ∨ verdict = .refusedEarly then s
  else
    let s := s.modJob j (·.useDefaultProcessors (s.queues qtp).defaultProcessors)
    if verdict = .refusedLate then s
    else
      let qfp := (s.jobs j).qPtr
      let s :=
        if (s.jobs j).jStatus.mask.isPend ∧ (s.jobs j).jStatus.reserve then
          (freeReserveSlots j s).modJob j fun jp => { jp with reserveTime := 0 }
        else s
      let s := jobInQueueEnd C j qtp s
      let s := updSwitchJob j qfp qtp (s.jobs j).maxNumProcessors s
      s.modJob j JData.noteSwitch

/-- For a job that is not an array. -/
def removeJob (j : JobRef) (s : Mbd) : Mbd :=
  let jp := s.jobs j
  let s := { s with live := s.live.erase j }
  let s := offJobList j .FJL s
  let s := updJgrpCountByJStatus jp.jgrpNode (some jp.jStatus.mask) none s
  match (s.nodes jp.jgrpNode).nodeType with
  | .ARRAY =>
    -- the last element takes the node of the array with it
    if (s.nodes jp.jgrpNode).counts .NJOBS ≤ 0 then updJgrpCountByOp jp.jgrpNode (-1) s else s
  | .JOB | .GROUP => s

end OpenLava

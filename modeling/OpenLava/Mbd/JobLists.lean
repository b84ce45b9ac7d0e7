import OpenLava.Mbd.State
import Mathlib.Data.List.InsertIdx

/-!
# The job lists

A job is linked through its own `forw` and `back` pointers. Unlinking takes it out of the list it is in whatever list
the caller names; only the length of the named list is decremented.
-/

namespace OpenLava

def jobsOnSameSegment (s : Mbd) (j1 j2 : JobRef) : Bool :=
  (s.jobs j2).qPtr = (s.jobs j1).qPtr ||
    (s.queues (s.jobs j2).qPtr).priority = (s.queues (s.jobs j1).qPtr).priority

/-- The entry after an entry, its `forw`; `none` is the head of the list. -/
def forwOf (j : JobRef) (entries : List JobRef) : Option JobRef := (entries.dropWhile (· ≠ j)).tail.head?

/-- The entry before an entry of a list, its `back`. -/
def backOf (j : JobRef) (entries : List JobRef) : Option JobRef := (entries.takeWhile (· ≠ j)).getLast?

/-- The order of a segment is the one of the `back` pointers. -/
def jobIsFirstOnSegment (s : Mbd) (j : JobRef) (entries : List JobRef) : Bool :=
  match forwOf j entries with
  | none => true
  | some prevJob => !jobsOnSameSegment s j prevJob

def jobIsLastOnSegment (s : Mbd) (j : JobRef) (entries : List JobRef) : Bool :=
  match backOf j entries with
  | none => true
  | some nextJob => !jobsOnSameSegment s j nextJob

def nextJobOnSegment (s : Mbd) (j : JobRef) (entries : List JobRef) : Option JobRef :=
  (backOf j entries).filter (jobsOnSameSegment s j)

def prevJobOnSegment (s : Mbd) (j : JobRef) (entries : List JobRef) : Option JobRef :=
  (forwOf j entries).filter (jobsOnSameSegment s j)

/-- The queues of one priority have the same ends. -/
def updateQueueJobPtr (s : Mbd) (listNo : ListNo) (qp : QRef) (e : JobEnds) : ListNo → QRef → JobEnds :=
  fun l q =>
    if l = listNo ∧ (q = qp ∨ (s.queues q).priority = (s.queues qp).priority) then e else s.ends l q

/-- For a job that has just been linked. -/
def queueObserverEnter (s : Mbd) (listNo : ListNo) (j : JobRef) : ListNo → QRef → JobEnds :=
  let entries := (s.lists listNo).entries
  let qp := (s.jobs j).qPtr
  let old := s.ends listNo qp
  updateQueueJobPtr s listNo qp
    { firstJob := if jobIsFirstOnSegment s j entries then some j else old.firstJob
      lastJob := if jobIsLastOnSegment s j entries then some j else old.lastJob }

def linkedEntries (s : Mbd) (j : JobRef) : List JobRef :=
  (([ListNo.SJL, .MJL, .PJL, .FJL].map fun l => (s.lists l).entries).find? fun entries => j ∈ entries).getD []

/-- An unlinked job still points to its neighbours. -/
def queueObserverLeave (s : Mbd) (listNo : ListNo) (j : JobRef) : ListNo → QRef → JobEnds :=
  let entries := linkedEntries s j
  let qp := (s.jobs j).qPtr
  let old := s.ends listNo qp
  updateQueueJobPtr s listNo qp
    { firstJob := if jobIsFirstOnSegment s j entries then nextJobOnSegment s j entries else old.firstJob
      lastJob := if jobIsLastOnSegment s j entries then prevJobOnSegment s j entries else old.lastJob }

/-- `schedulerInit` attaches the queues to all lists but that of finished jobs. -/
def observed (s : Mbd) (listNo : ListNo) : Bool := !s.replay && listNo != .FJL

/-- `listRemoveEntry(jDataList[listno], job)` -/
def listRemoveEntry (listno : ListNo) (j : JobRef) (s : Mbd) : Mbd :=
  { s with
    lists := fun l =>
      { entries := (s.lists l).entries.erase j
        numEnts := if l = listno then (s.lists l).numEnts - 1 else (s.lists l).numEnts }
    ends := if observed s listno then queueObserverLeave s listno j else s.ends }

def offJobList (j : JobRef) (listno : ListNo) (s : Mbd) : Mbd := listRemoveEntry listno j s

/-- The entry to insert before being given by its index. -/
def listInsertEntryBefore (listno : ListNo) (succ : Nat) (j : JobRef) (s : Mbd) : Mbd :=
  let list := s.lists listno
  let list := { entries := list.entries.insertIdx succ j, numEnts := list.numEnts + 1 }
  let s := { s with lists := Function.update s.lists listno list }
  { s with ends := if observed s listno then queueObserverEnter s listno j else s.ends }

/-- `inList(jDataList[FJL]->forw, job)`: the list package does not see the insertion. -/
def inFinishList (j : JobRef) (s : Mbd) : Mbd :=
  let list := s.lists .FJL
  { s with lists := Function.update s.lists .FJL { list with entries := j :: list.entries } }

/-- `LSB_ARRAY_IDX` -/
def arrayIdx (jobId : Int) : Int := if jobId = -1 then 0 else jobId / 2 ^ 32 % 2 ^ 16

/-- What the scan of `inPendJobList` does at one entry. -/
inductive ScanStep where
  | stop -- leave the loop and insert before this entry
  | skip -- go to the next entry at once
  | pass -- go on, unless this entry is the last one of the job's segment
  deriving DecidableEq, Repr

/-- The tests of the loop body of `inPendJobList`. -/
def pendScan (C : Config) (s : Mbd) (compareTime : Int) (job jp : JData) : ScanStep :=
  let prio := (s.queues job.qPtr).priority
  let prio' := (s.queues jp.qPtr).priority
  if prio < prio' then .stop
  else if prio = prio' then
    if (s.queues job.qPtr).interactiveAhead ∧ job.jobBill.interactive ∧ ¬ jp.jobBill.interactive then
      .skip
    else if job.jobPriority < jp.jobPriority then .stop
    else if job.jobPriority = jp.jobPriority then
      if compareTime > jp.jobBill.submitTime then .stop
      else if compareTime = jp.jobBill.submitTime then
        if C.arraySchedOrder ∧ arrayIdx job.jobId ≠ 0 then .stop
        else if job.jobId = -1 ∨ jp.jobId = -1 then .stop
        else if job.jobId > jp.jobId then .stop
        else .pass
      else .pass
    else .pass
  else .skip

/-- The index before which `inPendJobList` inserts. -/
def pendIndex (scan : JobRef → ScanStep) (same : JobRef → Bool) : List JobRef → Nat
  | [] => 0
  | jp :: rest =>
    match scan jp with
    | .stop => 0
    | .skip => pendIndex scan same rest + 1
    | .pass =>
      match rest with
      | [] => 1
      | next :: _ => if same jp ∧ ¬ same next then 1 else pendIndex scan same rest + 1

def inPendJobList (C : Config) (j : JobRef) (listno : ListNo) (requeueTime : Int) (s : Mbd) : Mbd :=
  let job := s.jobs j
  let compareTime :=
    if requeueTime ≠ 0 ∧ listno = .PJL ∧ (C.requeueToBottom ∨ job.sigDelRequeue) then requeueTime
    else job.jobBill.submitTime
  let s := s.modJob j fun job => { job with sigDelRequeue := false }
  let succ := pendIndex (fun jp => pendScan C s compareTime job (s.jobs jp))
    (fun jp => jobsOnSameSegment s j jp) (s.lists listno).entries
  listInsertEntryBefore listno succ j s

/-- A migrating job goes to `MJL`, unless `glMigToPendFlag`; any other to `PJL`. -/
def inPendOrMigList (C : Config) (j : JobRef) (migTime pendTime : Int) (s : Mbd) : Mbd :=
  if (s.jobs j).jStatus.mig then
    if C.glMigToPendFlag then
      (inPendJobList C j .PJL migTime s).modJob j fun job =>
        { job with jStatus := { job.jStatus with mig := false } }
    else inPendJobList C j .MJL 0 s
  else inPendJobList C j .PJL pendTime s

def inStartJobList (j : JobRef) (s : Mbd) : Mbd :=
  let job := s.jobs j
  let stop := fun i =>
    let jp := s.jobs i
    let prio := (s.queues job.qPtr).priority
    let prio' := (s.queues jp.qPtr).priority
    prio < prio' ∨ prio = prio' ∧
      (job.startTime > jp.startTime ∨
        (job.startTime = jp.startTime ∨ job.startTime = 0) ∧ job.jobId > jp.jobId)
  listInsertEntryBefore .SJL ((s.lists .SJL).entries.findIdx fun i => stop i) j s

def PJLorMJL (j : JobRef) (s : Mbd) : ListNo :=
  if j ∈ (s.lists .MJL).entries then .MJL else .PJL

def jobInQueueEnd (C : Config) (j : JobRef) (qp : QRef) (s : Mbd) : Mbd :=
  let job := s.jobs j
  if job.jStatus.mask.isFinish then s
  else
    let s := offJobList j (if job.jStatus.mask.isPend then PJLorMJL j s else .SJL) s
    let s := s.modJob j fun job => { job with qPtr := qp, jobBill := { job.jobBill with queue := qp } }
    if job.jStatus.mask.isPend then inPendOrMigList C j 0 0 s else inStartJobList j s

section

variable (C : Config) (j : JobRef) (l : ListNo) (t : Int) (s : Mbd)

@[simp] theorem listRemoveEntry_jobs : (listRemoveEntry l j s).jobs = s.jobs := rfl
@[simp] theorem offJobList_jobs : (offJobList j l s).jobs = s.jobs := rfl
@[simp] theorem inFinishList_jobs : (inFinishList j s).jobs = s.jobs := rfl
@[simp] theorem inStartJobList_jobs : (inStartJobList j s).jobs = s.jobs := rfl
theorem inPendJobList_jobs : (inPendJobList C j l t s).jobs =
    (s.modJob j fun job => { job with sigDelRequeue := false }).jobs := rfl

end

end OpenLava

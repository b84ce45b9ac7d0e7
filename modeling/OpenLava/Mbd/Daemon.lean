import OpenLava.Mbd.Replay
import OpenLava.Run

/-!
# The daemon as a state machine

The operations on jobs that requests, messages from the hosts, the scheduler and the event log lead to. A run is a list
of operations in any order.
-/

namespace OpenLava

/-- The fields and internal bits that callers write between the modelled calls. -/
structure Note where
  newReason : Nat := 0
  (requeueFlag urgent urgentNoStop sigDelRequeue : Bool := false)
  (sig1Flags startTime endTime : Int := 0)
  jobPriority : Int := -1
  nextSeq : Int := 1
  (mig zombie preExec signal kill chkpntedOnce : Bool := false)
  deriving DecidableEq, Repr

def Note.write (n : Note) (jp : JData) : JData :=
  let jStatus := { jp.jStatus with
    mig := n.mig, zombie := n.zombie, preExec := n.preExec, signal := n.signal, kill := n.kill,
    chkpntedOnce := n.chkpntedOnce }
  { jp with
    jStatus
    newReason := n.newReason, requeueFlag := n.requeueFlag, urgent := n.urgent, urgentNoStop := n.urgentNoStop
    sigDelRequeue := n.sigDelRequeue, sig1Flags := n.sig1Flags, startTime := n.startTime
    endTime := n.endTime, jobPriority := n.jobPriority, nextSeq := n.nextSeq }

inductive Op where
  /-- `handleNewJob` for a new record of this submission -/
  | newJob (now : Int) (fromLog : Bool) (j : JobRef) (jobId : Int) (user : URef) (bill : JobBill)
  /-- `handleNewJobArray`, with the elements and their job ids -/
  | newJobArray (a : JobRef) (jobId : Int) (user : URef) (bill : JobBill) (elems : List (JobRef × Int))
  | jStatusChange (now : Int) (j : JobRef) (newStatus : Mask) (eventTime : Int)
  | allocHosts (j : JobRef) (numEligProc : Int) (execCandPtr : List (HRef × Nat))
  | deallocHosts (j : JobRef)
  | reserveSlots (now : Int) (j : JobRef)
  | freeReserveSlots (j : JobRef)
  | takeReserve (j : JobRef) -- `updResCounters` around setting `JOB_STAT_RESERVE`
  | dropReserve (j : JobRef)
  | switchAJob (j : JobRef) (qtp : QRef) (verdict : SwitchVerdict)
  | moveAJob (j : JobRef) (moveReq : JobMoveReq)
  | handleRequeueJob (requeueTime : Int) (j : JobRef)
  | arrayRequeue (now : Int) (sigPtr : RequeueReq) (node : Option NodeRef) (elems : List JobRef)
  | removeJob (j : JobRef)
  | modify (j : JobRef) (newSub : JobBill) -- a modification of a started job is kept for its next run
  | note (j : JobRef) (n : Note)
  | setUnkwn (j : JobRef) (b : Bool) -- the host of the job becomes unreachable, or reachable again
  | postFinish (j : JobRef) (pdone perr : Bool) -- the post-execution command of the job has ended
  /-- a status record of the log -/
  | replayNewstat (env : ReplayEnv) (eventTime : Int) (j : JobRef) (newStat : JobStatusLog)
  | endReplay

def step (C : Config) : Op → Mbd → Mbd
  | .newJob now fromLog j jobId user bill => handleNewJob C now fromLog j (initJData jobId user bill)
  | .newJobArray a jobId user bill elems => handleNewJobArray C a (initJData jobId user bill) elems
  | .jStatusChange now j newStatus eventTime => jStatusChange C now j newStatus eventTime
  | .allocHosts j numEligProc execCandPtr => allocHosts j numEligProc execCandPtr
  | .deallocHosts j => deallocHosts j
  | .reserveSlots now j => reserveSlots C now j
  | .freeReserveSlots j => freeReserveSlots j
  | .takeReserve j => takeReserve j
  | .dropReserve j => dropReserve j
  | .switchAJob j qtp verdict => switchAJob C j qtp verdict
  | .moveAJob j moveReq => moveAJob C j moveReq
  | .handleRequeueJob requeueTime j => handleRequeueJob C requeueTime j
  | .arrayRequeue now sigPtr node elems => arrayRequeue C now sigPtr node elems
  | .removeJob j => removeJob j
  | .modify j newSub => fun s => s.modJob j fun jp => { jp with newSub := some newSub }
  | .note j n => fun s => s.modJob j n.write
  | .setUnkwn j b => fun s => s.modJob j (·.withUnkwn b)
  | .postFinish j pdone perr => fun s => s.modJob j (·.postFinish pdone perr)
  | .replayNewstat env eventTime j newStat => replayNewstat C env eventTime j newStat
  | .endReplay => endReplay

/-- The daemon before the first job: nothing is counted or linked. -/
structure Mbd.Initial (s : Mbd) : Prop where
  live : s.live = ∅
  queue_count : ∀ q c, (s.queues q).count c = 0
  queue_clamped : ∀ q, (s.queues q).clamped = false
  queue_uAcct : ∀ q u, (s.queues q).uAcct u = none
  queue_hAcct : ∀ q h, (s.queues q).hAcct h = none
  user_count : ∀ u c, (s.users u).count c = 0
  user_clamped : ∀ u, (s.users u).clamped = false
  host_count : ∀ h c, (s.hosts h).count c = 0
  host_clamped : ∀ h, (s.hosts h).clamped = false
  lists : ∀ l, (s.lists l).entries = []
  nodes : ∀ n c, (s.nodes n).counts c = 0

def Mbd.blank : Mbd :=
  { jobs := fun _ => initJData 0 0 { queue := 0 }, queues := fun _ => {}, users := fun _ => {},
    hosts := fun _ => { maxJobs := 4 } }

theorem Mbd.blank_initial : Mbd.blank.Initial := by constructor <;> intros <;> rfl

end OpenLava

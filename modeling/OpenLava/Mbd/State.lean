import OpenLava.Mbd.Status
import Mathlib.Data.Finset.Basic
import Mathlib.Data.Rat.Defs

/-!
# The state of mbatchd

A pointer of the source is a key of a table of records. `INFINIT_INT` limits are `none`. A host array `hPtr` with its
length `numHostPtr` is one list, and `NULL` is the empty list.
-/

namespace OpenLava

open Function

abbrev JobRef := Nat
abbrev QRef := Nat
abbrev URef := Nat
abbrev HRef := Nat

/-- A node of the tree, named by its path: the parent of `x :: p` is `p`. -/
abbrev NodeRef := List Nat

inductive Counter where
  | numJobs | numPEND | numRUN | numSSUSP | numUSUSP | numRESERVE
  deriving DecidableEq, Repr

abbrev Tally := Counter → Int

def tally (numJobs numPEND numRUN numSSUSP numUSUSP numRESERVE : Int) : Tally
  | .numJobs => numJobs
  | .numPEND => numPEND
  | .numRUN => numRUN
  | .numSSUSP => numSSUSP
  | .numUSUSP => numUSUSP
  | .numRESERVE => numRESERVE

/-- The fields of `struct userAcct` and `struct hostAcct`. -/
inductive AcctField where
  | numPEND | numRUN | numSSUSP | numUSUSP | numRESERVE | numNonPrmptRsv
  deriving DecidableEq, Repr

abbrev Acct := AcctField → Int

/-- The `LSBE_` error codes; `other` stands for those that the code only hands on. -/
inductive Lsbe where
  | NO_ERROR | NO_JOB | PERMISSION | JOB_ARRAY | JOB_SUSP | JOB_STARTED | J_UNCHKPNTABLE | JOB_FINISH | BAD_HOST
  | LOCKED_MASTER | PROC_NUM | BAD_JOB | JOB_MODIFY_ONCE | MBATCHD | BAD_HOST_SPEC | BAD_LIMIT | BAD_TIME
  | INTERACTIVE_RERUN | PTY_INFILE | BAD_QUEUE | NO_JOB_PRIORITY | BAD_USER_PRIORITY
  | other (code : Nat)
  deriving DecidableEq, Repr

/-- The submission record `struct submitReq`, as far as it is read here. -/
structure JobBill where
  queue : QRef
  (numProcessors maxNumProcessors : Nat := 1)
  submitTime : Int := 0
  userPriority : Int := -1
  modifyOnce : Bool := false -- `SUB_MODIFY_ONCE`
  rerunnable : Bool := false -- `SUB_RERUNNABLE`
  interactive : Bool := false -- `SUB_INTERACTIVE`
  exclusive : Bool := false -- `SUB_EXCLUSIVE`
  preExec : Bool := false -- `SUB_PRE_EXEC`
  chkpntable : Bool := false -- `SUB_CHKPNTABLE`
  restart : Bool := false -- `SUB_RESTART`
  restartForce : Bool := false -- `SUB_RESTART_FORCE`
  hold : Bool := false -- `SUB2_HOLD`
  useDefProclimit : Bool := false -- `SUB2_USE_DEF_PROCLIMIT`
  deriving DecidableEq, Repr

/-- `newReason` codes that the modelled functions test or set. -/
def PEND_JOB_NEW : Nat := 1
def PEND_JOB_MIG : Nat := 5
def PEND_JOB_PRE_EXEC : Nat := 6
def PEND_JOB_NO_FILE : Nat := 7
def PEND_JOB_SWITCH : Nat := 14
def PEND_JOB_NO_PASSWD : Nat := 17
def PEND_JOB_REQUEUED : Nat := 23
def PEND_QUE_PRE_FAIL : Nat := 306
def PEND_SBD_JOB_REQUEUE : Nat := 311
def PEND_USER_STOP : Nat := 607
def PEND_NO_MAPPING : Nat := 608
def PEND_RMT_PERMISSION : Nat := 609
def PEND_SBD_GETPID : Nat := 1005
def PEND_SBD_LOCK : Nat := 1006
def PEND_SBD_ZOMBIE : Nat := 1007
def PEND_SBD_ROOT : Nat := 1008
def PEND_HOST_NO_USER : Nat := 1313
def PEND_SBD_JOB_QUOTA : Nat := 1602
def PEND_JOB_START_FAIL : Nat := 1603
def PEND_JOB_START_UNKNWN : Nat := 1604
def PEND_SBD_NO_MEM : Nat := 1605
def PEND_SBD_NO_PROCESS : Nat := 1606
def EXIT_NORMAL : Nat := 0
def EXIT_RESTART : Nat := 0x1
def EXIT_ZOMBIE : Nat := 0x2
def EXIT_KILL_ZOMBIE : Nat := 0x8
def EXIT_ZOMBIE_JOB : Nat := 0x10
def EXIT_RERUN : Nat := 0x20
def EXIT_NO_MAPPING : Nat := 0x40
def EXIT_INIT_ENVIRON : Nat := 0x100
def EXIT_PRE_EXEC : Nat := 0x200
def SUSP_MBD_LOCK : Nat := 0x10000

structure JData where
  jobId : Int
  jStatus : JStatus
  jobBill : JobBill
  newSub : Option JobBill := none
  qPtr : QRef
  uPtr : URef
  hPtr : List HRef := []
  jgrpNode : NodeRef := []
  newReason : Nat := 0
  requeueFlag : Bool := false -- `JFLAG_REQUEUE`
  urgent : Bool := false -- `JFLAG_URGENT`
  urgentNoStop : Bool := false -- `JFLAG_URGENT_NOSTOP`
  sigDelRequeue : Bool := false -- `pendEvent.sigDel & DEL_ACTION_REQUEUE`
  (sig1Flags startTime endTime reserveTime : Int := 0) -- `pendEvent.sig1Flags`
  jobPriority : Int := -1
  nextSeq : Int := 1
  deriving DecidableEq, Repr

/-- With the fields a submission fills in at once. -/
def initJData (jobId : Int) (uPtr : URef) (jobBill : JobBill) : JData :=
  { jobId, uPtr, jobBill, jStatus := { mask := .PEND }, qPtr := jobBill.queue, newReason := PEND_JOB_NEW }

def JData.numHostPtr (jp : JData) : Int := jp.hPtr.length

def JData.phase (jp : JData) : Option Mask.Phase := jp.jStatus.mask.phase

/-- `shared->jobBill.maxNumProcessors` -/
def JData.maxNumProcessors (jp : JData) : Int := jp.jobBill.maxNumProcessors

structure QData where
  priority : Int := 0
  count : Tally := fun _ => 0
  clamped : Bool := false -- `addValue` has reported a negative counter of this record
  uAcct : URef → Option Acct := fun _ => none
  hAcct : HRef → Option Acct := fun _ => none
  numUsable : Int := 0
  (maxJobs uJobLimit hJobLimit : Option Int := none)
  pJobLimit : Option Rat := none
  (procLimit minProcLimit : Int := 0)
  defProcLimit : Nat := 0
  isOpen : Bool := true -- `qStatus & QUEUE_STAT_OPEN`
  interactiveAhead : Bool := false -- `Q_ATTRIB_ENQUE_INTERACTIVE_AHEAD`

structure UData where
  count : Tally := fun _ => 0
  clamped : Bool := false -- `addValue` has reported a negative counter of this record
  hAcct : HRef → Option Acct := fun _ => none
  pJobLimit : Option Rat := none -- `pJobLimit < INFINIT_FLOAT`
  gPtr : List URef := [] -- the groups this user is in, `gPtr`
  ancestors : List URef := [] -- the bit set `ancestors`

structure HData where
  count : Tally := fun _ => 0
  clamped : Bool := false -- `addValue` has reported a negative counter of this record
  uAcct : URef → Option Acct := fun _ => none
  maxJobs : Int
  numCPUs : Nat := 1
  uJobLimit : Option Int := none
  remote : Bool := false -- `HOST_STAT_REMOTE`
  full : Bool := false -- `HOST_STAT_FULL`
  updated : Bool := false -- `updHostData` has counted here; `HOST_STAT_FULL` is kept from then on
  full_eq : updated = true → full = decide (maxJobs ≤ count .numJobs) := by simp
  exclusive : Bool := false -- `HOST_STAT_EXCLUSIVE`
  numDispJobs : Int := 0
  pxyRsvJL : List JobRef := [] -- the proxies in `pxyRsvJL`, front first

/-- The job lists of `jDataList`. -/
inductive ListNo where
  | SJL | MJL | PJL | FJL
  deriving DecidableEq, Repr

/-- A job list in `forw` order, with the length the list package keeps. -/
structure JobList where
  entries : List JobRef := []
  numEnts : Int := 0
  deriving DecidableEq, Repr

/-- The ends of a queue's jobs: `firstJob[listNo]` and `lastJob[listNo]`. -/
structure JobEnds where
  (firstJob lastJob : Option JobRef := none)
  deriving DecidableEq, Repr

/-- In the order of `JGRP_COUNT_*`; the last is the index past the end. -/
inductive JgrpCounter where
  | NJOBS | PEND | NPSUSP | NRUN | NSSUSP | NUSUSP | NEXIT | NDONE | outOfBound
  deriving DecidableEq, Repr

inductive NodeType where
  | JOB | ARRAY | GROUP
  deriving DecidableEq, Repr

structure JgTreeNode where
  nodeType : NodeType := .GROUP
  counts : JgrpCounter → Int := fun _ => 0

/-- Parameters of `lsb.params` and command line. -/
structure Config where
  (glMigToPendFlag requeueToBottom arraySchedOrder : Bool := false)
  maxUserPriority : Int := 0
  /-- what `modifyJobPriority` computes from a user priority and the submission time -/
  agedPriority : Int → Int → Int := fun subPriority _ => subPriority
  hasBackfillPolicy : Bool := false -- `HAS_BACKFILL_POLICY`
  askedHostsOk : JobBill → Bool := fun _ => true -- whether `chkAskedHosts` accepts the hosts a submission asks for

structure Mbd where
  replay : Bool := false -- `mSchedStage == M_STAGE_REPLAY`
  jobs : JobRef → JData
  live : Finset JobRef := ∅ -- the jobs in `jobIdHT`
  queues : QRef → QData
  users : URef → UData
  hosts : HRef → HData
  lists : ListNo → JobList := fun _ => {}
  ends : ListNo → QRef → JobEnds := fun _ _ => {} -- `firstJob` and `lastJob` of the queues
  nodes : NodeRef → JgTreeNode := fun _ => {}

namespace Mbd

def setJob (s : Mbd) (j : JobRef) (jp : JData) : Mbd := { s with jobs := update s.jobs j jp }

variable (s : Mbd) (j : JobRef) (jp : JData)

@[simp] theorem setJob_replay : (s.setJob j jp).replay = s.replay := rfl
@[simp] theorem setJob_live : (s.setJob j jp).live = s.live := rfl
@[simp] theorem setJob_queues : (s.setJob j jp).queues = s.queues := rfl
@[simp] theorem setJob_users : (s.setJob j jp).users = s.users := rfl
@[simp] theorem setJob_hosts : (s.setJob j jp).hosts = s.hosts := rfl
@[simp] theorem setJob_lists : (s.setJob j jp).lists = s.lists := rfl
@[simp] theorem setJob_ends : (s.setJob j jp).ends = s.ends := rfl
@[simp] theorem setJob_nodes : (s.setJob j jp).nodes = s.nodes := rfl

theorem setJob_jobs : (s.setJob j jp).jobs = update s.jobs j jp := rfl

@[simp] theorem setJob_setJob (jp' : JData) : (s.setJob j jp).setJob j jp' = s.setJob j jp' := by
  simp [setJob]

@[simp] theorem setJob_self : s.setJob j (s.jobs j) = s := by simp [setJob]

def modJob (s : Mbd) (j : JobRef) (f : JData → JData) : Mbd := s.setJob j (f (s.jobs j))

variable (f : JData → JData)

@[simp] theorem modJob_replay : (s.modJob j f).replay = s.replay := rfl
@[simp] theorem modJob_live : (s.modJob j f).live = s.live := rfl
@[simp] theorem modJob_queues : (s.modJob j f).queues = s.queues := rfl
@[simp] theorem modJob_users : (s.modJob j f).users = s.users := rfl
@[simp] theorem modJob_hosts : (s.modJob j f).hosts = s.hosts := rfl
@[simp] theorem modJob_lists : (s.modJob j f).lists = s.lists := rfl
@[simp] theorem modJob_ends : (s.modJob j f).ends = s.ends := rfl
@[simp] theorem modJob_nodes : (s.modJob j f).nodes = s.nodes := rfl

theorem modJob_jobs : (s.modJob j f).jobs = update s.jobs j (f (s.jobs j)) := rfl

end Mbd

variable (s : Mbd) (j : JobRef)

@[simp] theorem setJob_job (jp : JData) : (s.setJob j jp).jobs j = jp := by simp [Mbd.setJob]

theorem setJob_other (jp : JData) (i : JobRef) (h : i ≠ j) : (s.setJob j jp).jobs i = s.jobs i := by
  simp [Mbd.setJob, h]

@[simp] theorem modJob_job (f : JData → JData) : (s.modJob j f).jobs j = f (s.jobs j) := by simp [Mbd.modJob]

end OpenLava

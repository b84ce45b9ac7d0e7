import OpenLava.Mbd.Submission

/-!
Modification of a job (`bmod`): `handleJParameters` puts the merged and checked submission in the place of the old one,
or keeps it for the time the job is started again (`setNewSub`). What the request does not name should stay; the
last section says exactly when it does for a pending job that stays in its queue.
-/

namespace OpenLava

open List OptionBits

structure ModJob where
  jStatus : JStatus
  jobBill : SubmitReq -- `shared->jobBill`
  newSub : Option SubmitReq := none
  qPtr : QueueParams
  jobIdStr : String -- `lsb_jobidinstr(jobId)`
  isArray : Bool := false -- `nodeType == JGRP_NODE_ARRAY`

def ModifyReq.names (req : ModifyReq) (f : Flag) : Bool :=
  has req.submitReq.options f || has req.delOptions f

/-- The checkpoint directory and period, in `handleJParameters` and `setNewSub`. -/
def applyChkpnt (req : ModifyReq) (subReq bill : SubmitReq) : SubmitReq :=
  if has req.delOptions SUB_CHKPNT_DIR then
    { bill with
      options := clear (clear bill.options SUB_CHKPNT_DIR) SUB_CHKPNT_PERIOD
      options2 := clear bill.options2 SUB2_QUEUE_CHKPNT
      chkpntDir := "" }
  else if has req.submitReq.options SUB_CHKPNT_DIR then
    { bill with
      chkpntDir := subReq.chkpntDir
      chkpntPeriod := if 0 < subReq.chkpntPeriod then subReq.chkpntPeriod else bill.chkpntPeriod
      options := set (set bill.options SUB_CHKPNT_DIR) SUB_CHKPNT_PERIOD
      options2 := clear bill.options2 SUB2_QUEUE_CHKPNT }
  else bill

variable {f : Flag}

theorem applyChkpnt_options (req : ModifyReq) (subReq bill : SubmitReq) : (applyChkpnt req subReq bill).options =
    if has req.delOptions SUB_CHKPNT_DIR then clear (clear bill.options SUB_CHKPNT_DIR) SUB_CHKPNT_PERIOD
    else if has req.submitReq.options SUB_CHKPNT_DIR then set (set bill.options SUB_CHKPNT_DIR) SUB_CHKPNT_PERIOD
    else bill.options := by
  unfold applyChkpnt
  rw [apply_ite SubmitReq.options, apply_ite SubmitReq.options]

open ModifyReq

theorem applyChkpnt_options2 (req : ModifyReq) (subReq bill : SubmitReq) : (applyChkpnt req subReq bill).options2 =
    if req.names SUB_CHKPNT_DIR then clear bill.options2 SUB2_QUEUE_CHKPNT else bill.options2 := by
  unfold applyChkpnt names
  cases has req.delOptions SUB_CHKPNT_DIR <;> cases has req.submitReq.options SUB_CHKPNT_DIR <;> rfl

/-- The rerun option; `SUB2_QUEUE_RERUNNABLE` is cleared in the first word. -/
def applyRerunnable (req : ModifyReq) (bill : SubmitReq) : SubmitReq :=
  if has req.delOptions SUB_RERUNNABLE then
    { bill with
      options := clear bill.options SUB_RERUNNABLE
      options2 := clear bill.options2 SUB2_QUEUE_RERUNNABLE }
  else if has req.submitReq.options SUB_RERUNNABLE then
    { bill with options := clear (set bill.options SUB_RERUNNABLE) SUB2_QUEUE_RERUNNABLE }
  else bill

/-- In another queue a job takes its checkpoint attributes, unless it has its own. -/
def queueChkpnt (req : ModifyReq) (qp : QueueParams) (jobIdStr : String) (noPeriod : Int) (own bill : SubmitReq) :
    SubmitReq :=
  if !has req.delOptions SUB_CHKPNT_DIR && !has req.submitReq.options SUB_CHKPNT_DIR &&
      has own.options2 SUB2_QUEUE_CHKPNT == has own.options SUB_CHKPNT_DIR then
    if qp.chkpnt then
      { bill with
        options := set (set bill.options SUB_CHKPNT_DIR) SUB_CHKPNT_PERIOD
        options2 := set bill.options2 SUB2_QUEUE_CHKPNT
        chkpntDir := qp.chkpntDir ++ "/" ++ jobIdStr
        chkpntPeriod := qp.chkpntPeriod }
    else
      { bill with
        options := clear (clear bill.options SUB_CHKPNT_DIR) SUB_CHKPNT_PERIOD
        options2 := clear bill.options2 SUB2_QUEUE_CHKPNT
        chkpntDir := ""
        chkpntPeriod := noPeriod }
  else bill

def queueRerunnable (req : ModifyReq) (qp : QueueParams) (own bill : SubmitReq) : SubmitReq :=
  if !has req.delOptions SUB_RERUNNABLE && !has req.submitReq.options SUB_RERUNNABLE &&
      has own.options2 SUB2_QUEUE_RERUNNABLE == has own.options SUB_RERUNNABLE then
    if qp.rerunnable then
      { bill with
        options := set bill.options SUB_RERUNNABLE
        options2 := set bill.options2 SUB2_QUEUE_RERUNNABLE }
    else
      { bill with
        options := clear bill.options SUB_RERUNNABLE
        options2 := clear bill.options2 SUB2_QUEUE_RERUNNABLE }
  else bill

/-- The new parameters wait for the next start of the job. -/
def setNewSub (env : SubmitEnv) (jpbw : ModJob) (qPtr : QueueParams) (subReq : SubmitReq) (req : ModifyReq) : ModJob :=
  let modReq := req.submitReq
  let newSub := copyJobBill env.now subReq none
  let userPriority :=
    if has req.delOptions2 SUB2_JOB_PRIORITY && decide (0 < env.maxUserPriority) then env.maxUserPriority / 2
    else if has modReq.options2 SUB2_JOB_PRIORITY && (checkUserPriority env modReq.userPriority).isNone then
      modReq.userPriority
    else newSub.userPriority
  let newSub := applyRerunnable req (applyChkpnt req subReq { newSub with userPriority })
  let newSub :=
    if jpbw.qPtr ≠ qPtr then
      queueRerunnable req qPtr jpbw.jobBill (queueChkpnt req qPtr jpbw.jobIdStr (-1) jpbw.jobBill newSub)
    else newSub
  { jpbw with newSub := some newSub }

/-- The `JOB_STAT_MODIFY_ONCE` bit, and the old parameters to go back to. -/
def saveOldParameters (env : SubmitEnv) (jpbw : ModJob) : ModJob :=
  { jpbw with
    jStatus := { jpbw.jStatus with modifyOnce := true }
    newSub := some (copyJobBill env.now jpbw.jobBill none) }

/-- The end of the pending branch of `handleJParameters`. -/
def applyParameters (qPtr : QueueParams) (oldMaxCpus : Int) (subReq : SubmitReq) (req : ModifyReq) (jpbw : ModJob) :
    ModJob :=
  let jobBill := applyRerunnable req (applyChkpnt req subReq jpbw.jobBill)
  if jpbw.isArray && jobBill.maxNumProcessors ≠ oldMaxCpus then { jpbw with jobBill }
  else if jpbw.qPtr ≠ qPtr then
    let jobBill := queueChkpnt req qPtr jpbw.jobIdStr 0 jobBill jobBill
    { jpbw with qPtr, jobBill := queueRerunnable req qPtr jobBill jobBill }
  else { jpbw with jobBill }

/-- `handleJParameters`; `subReq` is merged and checked, `modifyAllJobs` also the replay. -/
def handleJParameters (env : SubmitEnv) (modifyAllJobs : Bool) (jpbw : ModJob) (qPtr : QueueParams) (subReq : SubmitReq)
    (req : ModifyReq) : ModJob :=
  let modReq := req.submitReq
  let mask := jpbw.jStatus.mask
  if mask.isPend || mask.isFinish then
    let once := !has jpbw.jobBill.options SUB_MODIFY_ONCE && has modReq.options SUB_MODIFY_ONCE
    let oldMaxCpus := jpbw.jobBill.maxNumProcessors
    let jpbw :=
      if once && mask.isFinish then setNewSub env jpbw qPtr subReq req
      else
        let jpbw := if once then saveOldParameters env jpbw else jpbw
        { jpbw with jobBill := copyJobBill env.now subReq none }
    applyParameters qPtr oldMaxCpus subReq req jpbw
  else if mask.isStart && !has modReq.options2 SUB2_MODIFY_RUN_JOB then
    { jpbw with jobBill := { jpbw.jobBill with resReq := subReq.resReq } }
  else if mask.isStart && modifyAllJobs && !has modReq.options2 SUB2_MODIFY_PEND_JOB then
    let jpbw := if has modReq.options SUB_MODIFY_ONCE then saveOldParameters env jpbw else jpbw
    { jpbw with jobBill := copyJobBill env.now subReq none }
  else setNewSub env jpbw qPtr subReq req

/-- The checks of a started job are a parameter. -/
def modifyAJob (env : SubmitEnv) (checks : ParamChecks) (modifyAllJobs permitted replay : Bool)
    (checkStarted : ModJob → ModifyReq → Option Lsbe) (jpbw : ModJob) (req : ModifyReq) : Except Lsbe ModJob := do
  let modReq := req.submitReq
  let mask := jpbw.jStatus.mask
  refuse (if mask.isFinish then some .JOB_FINISH else none)
  refuse (if permitted then none else some .PERMISSION)
  refuse (if has modReq.options SUB_JOB_NAME && modReq.jobName.toList.contains '[' then some .BAD_JOB else none)
  refuse (if mask.isStart then checkStarted jpbw req else none)
  refuse (if mask.isPend && has jpbw.jobBill.options SUB_MODIFY_ONCE && !has modReq.options SUB_MODIFY_ONCE then
    some .JOB_MODIFY_ONCE else none)
  let req := if !replay && has modReq.options SUB_CHKPNT_DIR then
    { req with submitReq := { modReq with chkpntDir := modReq.chkpntDir ++ "/" ++ jpbw.jobIdStr } } else req
  let oldReq := if mask.isPend then jpbw.jobBill else jpbw.newSub.getD jpbw.jobBill
  let newReq ← getMergeSubReq env oldReq req
  let (qPtr, newReq) ← checkJobParams env checks (!has modReq.options SUB_DEPEND_COND) newReq
  return handleJParameters env modifyAllJobs jpbw qPtr (copyJobBill env.now newReq none) req

def ModifyReq.names2 (req : ModifyReq) (f : Flag) : Bool :=
  has req.submitReq.options2 f || has req.delOptions2 f

def ModifyReq.namesInFile (req : ModifyReq) : Bool := req.names SUB_IN_FILE || req.names2 SUB2_IN_FILE_SPOOL

def ModifyReq.namesCommand (req : ModifyReq) : Bool := req.names2 SUB2_MODIFY_CMD || req.names2 SUB2_JOB_CMD_SPOOL

def ModifyReq.namesChkpnt (req : ModifyReq) : Bool := req.names SUB_CHKPNT_DIR || req.names SUB_CHKPNT_PERIOD

def ModifyReq.namesLimit (req : ModifyReq) (i : Rlimit) : Bool := req.submitReq.rLimits i != DEFAULT_RLIMIT

/-- Limits of the CPU and of the run time are given with a host specification. -/
def ModifyReq.namesHostSpec (req : ModifyReq) : Bool :=
  req.names SUB_HOST_SPEC || req.namesLimit .CPU || req.namesLimit .RUN

def ModifyReq.namesProcs (req : ModifyReq) : Bool := req.submitReq.numProcessors != DEFAULT_NUMPRO

/-- The limits whose unit `SUB_RLIMIT_UNIT_IS_KB` tells. -/
def ModifyReq.namesSizes (req : ModifyReq) : Bool :=
  [Rlimit.FSIZE, .DATA, .STACK, .CORE, .RSS, .VMEM].any req.namesLimit

/-- The request sets or deletes bit `i`, by itself or with the value it belongs to. -/
def ModifyReq.namesBit (req : ModifyReq) (i : Nat) : Bool :=
  req.submitReq.options.getLsbD i || req.delOptions.getLsbD i ||
    (req.namesInFile && i == SUB_IN_FILE.pos) ||
    (req.namesChkpnt && i == SUB_CHKPNT_PERIOD.pos) ||
    (req.namesHostSpec && i == SUB_HOST_SPEC.pos) ||
    (req.namesSizes && i == SUB_RLIMIT_UNIT_IS_KB.pos)

def ModifyReq.namesBit2 (req : ModifyReq) (i : Nat) : Bool :=
  req.submitReq.options2.getLsbD i || req.delOptions2.getLsbD i ||
    (req.namesInFile && i == SUB2_IN_FILE_SPOOL.pos) ||
    (req.names SUB_CHKPNT_DIR && i == SUB2_QUEUE_CHKPNT.pos) ||
    (req.names SUB_RERUNNABLE && i == SUB2_QUEUE_RERUNNABLE.pos) ||
    (req.namesCommand && (i == SUB2_MODIFY_CMD.pos || i == SUB2_JOB_CMD_SPOOL.pos)) ||
    (req.namesProcs && i == SUB2_USE_DEF_PROCLIMIT.pos)

section

variable (req : ModifyReq)

theorem namesBit_own (ho : f.pos ∉ [3, 10, 16, 31]) : req.namesBit f.pos = req.names f := by
  simp only [mem_cons, not_mem_nil, or_false, not_or, ← beq_eq_false_iff_ne] at ho
  simp [namesBit, names, has_eq, ho]

theorem namesBit_inFile : req.namesBit SUB_IN_FILE.pos = req.namesInFile := by
  have h : req.namesBit SUB_IN_FILE.pos = (req.names SUB_IN_FILE || req.namesInFile) := by
    simp [namesBit, names, has_eq]
  rw [h, namesInFile, ← Bool.or_assoc, Bool.or_self]

theorem namesBit2_inFile : req.namesBit2 SUB2_IN_FILE_SPOOL.pos = req.namesInFile := by
  have h : req.namesBit2 SUB2_IN_FILE_SPOOL.pos = (req.names2 SUB2_IN_FILE_SPOOL || req.namesInFile) := by
    simp [namesBit2, names2, has_eq]
  rw [h, namesInFile, Bool.or_comm, Bool.or_assoc, Bool.or_self]

theorem namesBit_hostSpec : req.namesBit SUB_HOST_SPEC.pos = req.namesHostSpec := by
  have h : req.namesBit SUB_HOST_SPEC.pos = (req.names SUB_HOST_SPEC || req.namesHostSpec) := by
    simp [namesBit, names, has_eq]
  rw [h, namesHostSpec, ← Bool.or_assoc, ← Bool.or_assoc, Bool.or_self]

theorem namesBit_unit : req.namesBit SUB_RLIMIT_UNIT_IS_KB.pos = (req.names SUB_RLIMIT_UNIT_IS_KB || req.namesSizes) := by
  simp [namesBit, names, has_eq]

theorem namesBit2_spool : req.namesBit2 SUB2_JOB_CMD_SPOOL.pos = req.namesCommand := by
  have h : req.namesBit2 SUB2_JOB_CMD_SPOOL.pos = (req.names2 SUB2_JOB_CMD_SPOOL || req.namesCommand) := by
    simp [namesBit2, names2, has_eq]
  rw [h, namesCommand, Bool.or_comm, Bool.or_assoc, Bool.or_self]

end

section

variable {old : SubmitReq} {req : ModifyReq} {i : Nat}

/-- The bits of the old options that the merge keeps; `tooBig`: for its unit. -/
def keptBit (old : SubmitReq) (tooBig : Bool) (i : Nat) : Bool :=
  match i with
  | 3 => !has old.options2 SUB2_IN_FILE_SPOOL && has old.options SUB_IN_FILE
  | 9 | 10 | 16 | 23 | 28 | 29 | 30 => false
  | 27 => has old.options SUB_PTY || has old.options SUB_PTY_SHELL
  | 31 => tooBig
  | _ => old.options.getLsbD i

theorem mergeFields_bit (env : SubmitEnv) (factor : Float32) (hi : i < 32) (hname : req.namesBit i = false) :
    (mergeFields env factor old req).options.getLsbD i =
      keptBit old (!limitIsOk (mergeLimit factor old req.submitReq)) i := by
  unfold mergeFields
  rw [collect_bit _ hi]
  -- of the table of bits, the first `simp` leaves only the entries of place `i`
  interval_cases i <;>
    simp [keptBit] <;>
    simp [namesBit, namesInFile, names, names2, has_eq] at hname <;>
    simp [mergeFlag, mergeInFile, has_eq, hname]

def keptBit2 (old : SubmitReq) (i : Nat) : Bool :=
  match i with
  | 0 | 2 | 3 | 4 | 6 | 7 | 8 | 9 | 10 => old.options2.getLsbD i
  | _ => false

theorem mergeCommand_bit (h : mergeCommand env old req = .ok cmd) (hi : i < 32) (hname : req.namesBit2 i = false) :
    (collect cmd.bits).getLsbD i = (has old.options2 SUB2_JOB_CMD_SPOOL && decide (SUB2_JOB_CMD_SPOOL.pos = i)) := by
  have ho : req.namesCommand = true → ¬1 = i ∧ ¬8 = i := fun hc => by
    simp only [namesBit2, Bool.or_eq_false_iff, hc, Bool.true_and, beq_eq_false_iff_ne] at hname
    exact ⟨fun h => hname.1.2.1 h.symm, fun h => hname.1.2.2 h.symm⟩
  rw [collect_bit _ hi]
  unfold mergeCommand at h
  dsimp only at h
  split_ifs at h with hs hok hd hf hmod hok <;> cases h
  · simp [ho (by simp [namesCommand, names2, hs])]
  · simp [ho (by simp [namesCommand, names2, hd])]
  · simp [ho (by simp [namesCommand, names2, hmod])]
  · simp

theorem mergeCommand_other (h : mergeCommand env old req = .ok cmd) (hi : i < 32)
    (hmod : ¬1 = i) (hs : ¬8 = i) : (collect cmd.bits).getLsbD i = false := by
  rw [collect_bit _ hi]
  unfold mergeCommand at h
  dsimp only at h
  split_ifs at h <;> cases h <;> simp [hmod, hs]

theorem mergeProcs_unnamed (h : req.namesProcs = false) : mergeProcs old req.submitReq =
    ⟨old.numProcessors, old.maxNumProcessors, has old.options2 SUB2_USE_DEF_PROCLIMIT⟩ := by
  have hd : req.submitReq.numProcessors = DEFAULT_NUMPRO := by simpa [namesProcs] using h
  unfold mergeProcs
  rw [hd, if_neg (by simp), if_neg (by decide)]

theorem mergeFields_bit2 (env : SubmitEnv) (factor : Float32) (hi : i < 32) (hname : req.namesBit2 i = false) :
    (mergeFields env factor old req).options2.getLsbD i = (keptBit2 old i && decide (SUB2_JOB_CMD_SPOOL.pos ≠ i)) := by
  unfold mergeFields
  rw [collect_bit _ hi]
  interval_cases i <;>
    simp [keptBit2] <;>
    simp [namesBit2, namesInFile, names, names2, has_eq] at hname <;>
    simp [mergeFlag, mergeInFile, mergeProcs_unnamed, has_eq, hname]

end

/-- The strings that an option of the first word comes with. -/
inductive StrField where
  | outFile | chkpntDir | dependCond | resReq | preExecCmd | mailUser | loginShell

namespace StrField

def get : StrField → SubmitReq → String
  | outFile => SubmitReq.outFile
  | chkpntDir => SubmitReq.chkpntDir
  | dependCond => SubmitReq.dependCond
  | resReq => SubmitReq.resReq
  | preExecCmd => SubmitReq.preExecCmd
  | mailUser => SubmitReq.mailUser
  | loginShell => SubmitReq.loginShell

def flag : StrField → Flag
  | outFile => SUB_OUT_FILE
  | chkpntDir => SUB_CHKPNT_DIR
  | dependCond => SUB_DEPEND_COND
  | resReq => SUB_RES_REQ
  | preExecCmd => SUB_PRE_EXEC
  | mailUser => SUB_MAIL_USER
  | loginShell => SUB_LOGIN_SHELL

def blank : StrField → String
  | outFile => "/dev/null"
  | _ => ""

end StrField

/-- What the request does not name has its old value, the name and the error file as derived. -/
structure Framed (old : SubmitReq) (req : ModifyReq) (bill : SubmitReq) : Prop where
  options : ∀ i, req.namesBit i = false → bill.options.getLsbD i = old.options.getLsbD i
  options2 : ∀ i, req.namesBit2 i = false → bill.options2.getLsbD i = old.options2.getLsbD i
  jobName : req.names SUB_JOB_NAME = false → has old.options SUB_JOB_NAME = true ∨ req.namesCommand = false →
    bill.jobName = old.jobName
  queue : req.names SUB_QUEUE = false → bill.queue = old.queue
  askedHosts : req.names SUB_HOST = false → bill.askedHosts = old.askedHosts
  strings : ∀ f : StrField, req.names f.flag = false → f.get bill = f.get old
  errFile : req.names SUB_ERR_FILE = false → has old.options SUB_ERR_FILE = true ∨ req.names SUB_OUT_FILE = false →
    bill.errFile = old.errFile
  projectName : req.names SUB_PROJECT_NAME = false → bill.projectName = old.projectName
  inFile : req.namesInFile = false → bill.inFile = old.inFile ∧ bill.inFileSpool = old.inFileSpool
  command : req.namesCommand = false → bill.command = old.command ∧ bill.commandSpool = old.commandSpool
  hostSpec : req.namesHostSpec = false → bill.hostSpec = old.hostSpec
  chkpntPeriod : req.namesChkpnt = false → bill.chkpntPeriod = old.chkpntPeriod
  sigValue : req.names SUB_WINDOW_SIG = false → bill.sigValue = old.sigValue
  userPriority : req.names2 SUB2_JOB_PRIORITY = false → bill.userPriority = old.userPriority
  xf : req.names SUB_OTHER_FILES = false → bill.xf = old.xf
  rLimits : ∀ i, req.namesLimit i = false → bill.rLimits i = old.rLimits i
  beginTime : req.submitReq.beginTime = 0 → bill.beginTime = old.beginTime
  termTime : req.submitReq.termTime = 0 → bill.termTime = old.termTime
  procs : req.namesProcs = false →
    bill.numProcessors = old.numProcessors ∧ bill.maxNumProcessors = old.maxNumProcessors
  submitter : bill.cwd = old.cwd ∧ bill.fromHost = old.fromHost ∧ bill.subHomeDir = old.subHomeDir ∧
    bill.schedHostType = old.schedHostType ∧ bill.jobFile = old.jobFile ∧ bill.submitTime = old.submitTime ∧
    bill.umask = old.umask ∧ bill.restartPid = old.restartPid ∧ bill.niosPort = old.niosPort

def mergedLimit (env : SubmitEnv) (old : SubmitReq) (req : ModifyReq) (i : Rlimit) : Int :=
  mergeLimit ((mergeFactor env old req.submitReq).getD 1) old req.submitReq i

/-- Whether the check scales a limit, which also sets the host specification. -/
def scaledAgain (env : SubmitEnv) (old : SubmitReq) (req : ModifyReq) : Bool :=
  decide (0 < mergedLimit env old req .CPU) || decide (0 < mergedLimit env old req .RUN)

def scaledWith (env : SubmitEnv) (qp : QueueParams) (old : SubmitReq) (req : ModifyReq) : String :=
  if has req.submitReq.options SUB_HOST_SPEC then
    if scaling old req.submitReq then old.hostSpec else req.submitReq.hostSpec
  else defaultSpec env qp old

structure Harmless (env : SubmitEnv) (qp : QueueParams) (old : SubmitReq) (req : ModifyReq) : Prop where
  /-- No bit of the old options is lost: the four named ones and two places without an option. -/
  lost : ∀ i ∈ [9, 10, 23, 28, 29, 30], req.namesBit i = false → old.options.getLsbD i = false
  /-- Of the second word `SUB2_MODIFY_CMD`, `SUB2_QUEUE_CHKPNT` and what follows `SUB2_USE_DEF_PROCLIMIT`. -/
  lost2 : ∀ i, i = 1 ∨ i = 5 ∨ 11 ≤ i → req.namesBit2 i = false → old.options2.getLsbD i = false
  /-- An exclusive job is not made rerunnable. -/
  exclusive : req.names SUB_EXCLUSIVE = false → has req.submitReq.options SUB_RERUNNABLE = true →
    has req.delOptions SUB_RERUNNABLE = false → has old.options SUB_EXCLUSIVE = false
  pty : req.names SUB_PTY = false → has old.options SUB_PTY_SHELL = true → has old.options SUB_PTY = true
  unit : req.names SUB_RLIMIT_UNIT_IS_KB = false → req.namesSizes = false →
    has old.options SUB_RLIMIT_UNIT_IS_KB = !limitIsOk old.rLimits
  queue : req.names SUB_QUEUE = false → has old.options SUB_QUEUE = true ∧ old.queue = qp.queue
  projectName : req.names SUB_PROJECT_NAME = false → has old.options SUB_PROJECT_NAME = true ∧
    (old.projectName = "" → env.getDefaultProject = "")
  askedHosts : req.names SUB_HOST = false → has old.options SUB_HOST = true ∨ old.askedHosts = []
  strings : ∀ f : StrField, req.names f.flag = false → has old.options f.flag = true ∨ f.get old = f.blank
  errFile : req.names SUB_ERR_FILE = false → req.names SUB_OUT_FILE = false → has old.options SUB_ERR_FILE = true ∨
    old.errFile = if has old.options SUB_OUT_FILE then old.outFile else "/dev/null"
  inFile : req.namesInFile = false →
    (has old.options2 SUB2_IN_FILE_SPOOL = true → has old.options SUB_IN_FILE = false) ∧
    (has old.options2 SUB2_IN_FILE_SPOOL = true ∨ old.inFileSpool = "/dev/null" ∧
      (has old.options SUB_IN_FILE = true ∨ old.inFile = "/dev/null"))
  command : req.namesCommand = false → has old.options2 SUB2_JOB_CMD_SPOOL = true ∨ old.commandSpool = ""
  hostSpec : req.namesHostSpec = false → has old.options SUB_HOST_SPEC = scaledAgain env old req ∧
    old.hostSpec = if scaledAgain env old req then defaultSpec env qp old else ""
  chkpntPeriod : req.namesChkpnt = false → old.chkpntPeriod = 0
  sigValue : req.names SUB_WINDOW_SIG = false → has old.options SUB_WINDOW_SIG = true ∨ old.sigValue = 0
  userPriority : req.names2 SUB2_JOB_PRIORITY = false → has old.options2 SUB2_JOB_PRIORITY = true ∨
    old.userPriority = if env.maxUserPriority < 0 then -1 else env.maxUserPriority / 2
  xf : req.names SUB_OTHER_FILES = false → has old.options SUB_OTHER_FILES = true ∨ old.xf = []
  /-- A limit divided by one factor and multiplied by the other comes back. -/
  rLimits : ∀ i, i = .CPU ∨ i = .RUN → req.namesLimit i = false → 0 < old.rLimits i →
    0 < mergedLimit env old req i ∧ ∃ factor, env.cpuFactor (scaledWith env qp old req) = some factor ∧
      normalLimit factor (mergedLimit env old req i) = .ok (old.rLimits i)
  procs : req.namesProcs = false → has old.options2 SUB2_USE_DEF_PROCLIMIT = true →
    old.numProcessors = defaultProcs qp ∧ old.maxNumProcessors = defaultProcs qp

/-- A modification that was merged and checked for a queue. -/
structure Modification (env : SubmitEnv) (qp : QueueParams) (old : SubmitReq) (req : ModifyReq) where
  cmd : MergedCommand
  factor : Float32
  (merged subReq : SubmitReq)
  cmd_ok : mergeCommand env old req = .ok cmd
  factor_ok : mergeFactor env old req.submitReq = some factor
  merged_eq : merged = { mergeFields env factor old req with
    options2 := (mergeFields env factor old req).options2 ||| collect cmd.bits
    command := cmd.command
    commandSpool := cmd.commandSpool }
  checked : Checked env qp merged subReq

namespace Modification

variable {env : SubmitEnv} {qp : QueueParams} {old : SubmitReq} {req : ModifyReq}

theorem exists_of_ok {merged subReq : SubmitReq} (hmerge : getMergeSubReq env old req = .ok merged)
    (hc : checkJobParams env checks keepDepend merged = .ok (qp, subReq)) :
    ∃ m : Modification env qp old req, m.subReq = subReq := by
  obtain ⟨cmd, factor, hcmd, hf, hmer⟩ := getMergeSubReq_ok hmerge
  exact ⟨⟨cmd, factor, merged, subReq, hcmd, hf, hmer, checkJobParams_ok hc⟩, rfl⟩

def stored (m : Modification env qp old req) : SubmitReq := copyJobBill env.now m.subReq none

def bill (m : Modification env qp old req) : SubmitReq :=
  applyRerunnable req (applyChkpnt req m.stored m.stored)

variable (m : Modification env qp old req)

theorem stored_options : m.stored.options = m.subReq.options := rfl

theorem bill_same : m.bill = { m.stored with
    options := m.bill.options, options2 := m.bill.options2, chkpntDir := m.bill.chkpntDir
    chkpntPeriod := m.bill.chkpntPeriod } := by
  unfold bill applyRerunnable applyChkpnt
  split_ifs <;> rfl

theorem merged_bit (hi : i < 32) (hname : req.namesBit i = false) :
    m.merged.options.getLsbD i = keptBit old (!limitIsOk m.merged.rLimits) i := by
  rw [m.merged_eq]
  exact mergeFields_bit env m.factor hi hname

theorem merged_bit2 (hi : i < 32) (hname : req.namesBit2 i = false) : m.merged.options2.getLsbD i = keptBit2 old i := by
  rw [m.merged_eq]
  rw [BitVec.getLsbD_or, mergeFields_bit2 env m.factor hi hname, mergeCommand_bit m.cmd_ok hi hname]
  by_cases hs : 8 = i
  · subst hs
    simp [keptBit2, has_eq]
  · simp [hs]

theorem bill_bit (hi : i < 32) (hname : req.namesBit i = false) : m.bill.options.getLsbD i =
    ((keptBit old (!limitIsOk m.merged.rLimits) i || decide (SUB_QUEUE.pos = i) ||
      (m.merged.projectName == "" && decide (SUB_PROJECT_NAME.pos = i)) ||
      (limited m.merged && decide (SUB_HOST_SPEC.pos = i))) &&
      !(has req.submitReq.options SUB_RERUNNABLE && !has req.delOptions SUB_RERUNNABLE &&
        decide (SUB_EXCLUSIVE.pos = i))) := by
  have hc : (applyChkpnt req m.stored m.stored).options.getLsbD i = m.subReq.options.getLsbD i := by
    have ho : req.names SUB_CHKPNT_DIR = true → ¬11 = i ∧ ¬10 = i := by
      intro hd
      constructor
      all_goals
        rintro rfl
        simp [namesBit, namesChkpnt, hd] at hname
      simp [names, has_eq, hname] at hd
    rw [applyChkpnt_options, stored_options]
    split_ifs with hd hn
    · simp [clear_bit, ho (by simp [names, hd])]
    · simp [set_bit, ho (by simp [names, hn])]
    · rfl
  rw [← m.merged_bit hi hname, ← m.checked.bit i hi, ← hc]
  have ho : req.names SUB_RERUNNABLE = true → ¬14 = i := by
    rintro hr rfl
    simp [namesBit, names, has_eq] at hname hr
    simp [hname] at hr
  unfold bill applyRerunnable
  split_ifs with hd hn
  · simp [clear_bit, ho (by simp [names, hd]), hd]
  · simp [clear_bit, set_bit, ho (by simp [names, hn]), hd, hn]
  · simp [hn]

theorem stored_options2 : m.stored.options2 = m.merged.options2 := by
  have h : m.subReq.options2 = m.merged.options2 := by rw [m.checked.same]
  exact h

theorem bill_bit2 (hi : i < 32) (hname : req.namesBit2 i = false) : m.bill.options2.getLsbD i = keptBit2 old i := by
  have hc : (applyChkpnt req m.stored m.stored).options2.getLsbD i = m.merged.options2.getLsbD i := by
    rw [applyChkpnt_options2, stored_options2]
    split_ifs with hd
    · have ho : ¬5 = i := by
        rintro rfl
        simp [namesBit2, hd] at hname
      simp [clear_bit, ho]
    · rfl
  rw [← m.merged_bit2 hi hname, ← hc]
  unfold bill applyRerunnable
  split_ifs with hd hn
  · have ho : ¬6 = i := by
      rintro rfl
      simp [namesBit2, names, hd] at hname
    simp [clear_bit, ho]
  · rfl
  · rfl

/-- The places of the first word that neither the merge nor the check treats specially. -/
abbrev plain (i : Nat) : Prop :=
  i ∈ [0, 2, 4, 5, 6, 7, 8, 11, 12, 13, 14, 15, 17, 18, 19, 20, 21, 22, 24, 26]

theorem keptBit_plain (h : plain i) : keptBit old tooBig i = old.options.getLsbD i := by
  unfold keptBit
  split <;> first | rfl | exact absurd h (by decide)

theorem bill_eq : m.bill = { mergeFields env m.factor old req with
    options := m.bill.options
    options2 := m.bill.options2
    chkpntDir := m.bill.chkpntDir
    chkpntPeriod := m.bill.chkpntPeriod
    command := m.cmd.command
    commandSpool := if has m.merged.options2 SUB2_JOB_CMD_SPOOL then m.cmd.commandSpool else ""
    projectName := m.subReq.projectName
    queue := qp.queue
    hostSpec := if has m.subReq.options SUB_HOST_SPEC then m.subReq.hostSpec else ""
    rLimits := m.subReq.rLimits
    numProcessors := m.subReq.numProcessors
    maxNumProcessors := m.subReq.maxNumProcessors
    loginShell := if has m.subReq.options SUB_LOGIN_SHELL then (mergeFields env m.factor old req).loginShell else ""
    mailUser := if has m.subReq.options SUB_MAIL_USER then (mergeFields env m.factor old req).mailUser else ""
    inFile := if has m.merged.options2 SUB2_IN_FILE_SPOOL || has m.subReq.options SUB_IN_FILE then
      (mergeFields env m.factor old req).inFile else "/dev/null"
    outFile := if has m.subReq.options SUB_OUT_FILE then (mergeFields env m.factor old req).outFile else "/dev/null"
    errFile := if has m.subReq.options SUB_ERR_FILE then (mergeFields env m.factor old req).errFile
      else if has m.subReq.options SUB_OUT_FILE then m.bill.outFile else "/dev/null"
    inFileSpool := if has m.merged.options2 SUB2_IN_FILE_SPOOL then (mergeFields env m.factor old req).inFileSpool
      else "/dev/null" } := by
  have ho : m.bill.outFile = m.stored.outFile := by rw [m.bill_same]
  refine m.bill_same.trans ?_
  rw [ho]
  have hq := m.checked.queue
  have hs := m.checked.same
  rw [← hq]
  unfold stored copyJobBill
  rw [hs, m.merged_eq]
  rfl

theorem has_plain (hpla : plain f.pos) (hname : req.names f = false) :
    has m.subReq.options f = has old.options f := by
  have hi : f.pos < 32 := by
    simp only [mem_cons, not_mem_nil, or_false] at hpla
    omega
  have hname' : req.namesBit f.pos = false := by
    rw [namesBit_own req fun hmem => ?_, hname]
    simp only [mem_cons, not_mem_nil, or_false] at hpla hmem
    omega
  have ho : ¬1 = f.pos ∧ ¬25 = f.pos ∧ ¬16 = f.pos := by
    simp only [mem_cons, not_mem_nil, or_false] at hpla
    omega
  rw [has_eq, has_eq, m.checked.bit _ hi, m.merged_bit hi hname', keptBit_plain hpla]
  simp [ho]

theorem kept_iff : (if b then value else dflt) = value ↔ b = true ∨ value = dflt := by
  cases b <;> simp [eq_comm]

theorem mergeField_unnamed (hname : (has new f || has del f) = false) :
    mergeField new o del f newValue oldValue dflt = if has o f then oldValue else dflt := by
  rw [Bool.or_eq_false_iff] at hname
  simp [mergeField, hname]

theorem bill_chkpnt (hname : req.names SUB_CHKPNT_DIR = false) :
    m.bill.chkpntDir = (if has m.subReq.options SUB_CHKPNT_DIR then m.merged.chkpntDir else "") ∧
      m.bill.chkpntPeriod = m.merged.chkpntPeriod := by
  have hs : applyChkpnt req m.stored m.stored = m.stored := by
    rw [names, Bool.or_eq_false_iff] at hname
    simp [applyChkpnt, hname]
  have hb : m.bill.chkpntDir = m.stored.chkpntDir ∧ m.bill.chkpntPeriod = m.stored.chkpntPeriod := by
    unfold bill
    rw [hs]
    unfold applyRerunnable
    split_ifs <;> exact ⟨rfl, rfl⟩
  have hd : m.subReq.chkpntDir = m.merged.chkpntDir := by rw [m.checked.same]
  have hper : m.subReq.chkpntPeriod = m.merged.chkpntPeriod := by rw [m.checked.same]
  rw [hb.1, hb.2, ← hd, ← hper]
  exact ⟨rfl, rfl⟩

theorem strings_eq (f : StrField) (hname : req.names f.flag = false) :
    f.get m.bill = if has old.options f.flag then f.get old else f.blank := by
  have hmer : ∀ value : SubmitReq → String, mergeField req.submitReq.options old.options req.delOptions f.flag
      (value req.submitReq) (value old) "" = if has old.options f.flag then value old else "" :=
    fun _ => mergeField_unnamed hname
  -- the four strings that `copyJobBill` drops with their option, and the three that it does not look at
  have hs : ∀ (value : SubmitReq → String) (dflt : String), plain f.flag.pos →
      (if has m.subReq.options f.flag then mergeField req.submitReq.options old.options req.delOptions f.flag
        (value req.submitReq) (value old) "" else dflt) = if has old.options f.flag then value old else dflt := by
    intro value dflt hpla
    rw [m.has_plain hpla hname, hmer]
    split <;> rfl
  cases f with
  | outFile =>
    rw [m.bill_eq]
    exact hs SubmitReq.outFile _ (by decide)
  | chkpntDir =>
    show m.bill.chkpntDir = _
    rw [(m.bill_chkpnt hname).1, m.merged_eq]
    exact hs SubmitReq.chkpntDir _ (by decide)
  | mailUser =>
    rw [m.bill_eq]
    exact hs SubmitReq.mailUser _ (by decide)
  | loginShell =>
    rw [m.bill_eq]
    exact hs SubmitReq.loginShell _ (by decide)
  | dependCond =>
    rw [m.bill_eq]
    exact hmer SubmitReq.dependCond
  | resReq =>
    rw [m.bill_eq]
    exact hmer SubmitReq.resReq
  | preExecCmd =>
    rw [m.bill_eq]
    exact hmer SubmitReq.preExecCmd

theorem errFile_eq (hname : req.names SUB_ERR_FILE = false)
    (ho : has old.options SUB_ERR_FILE = true ∨ req.names SUB_OUT_FILE = false) :
    m.bill.errFile = if has old.options SUB_ERR_FILE then old.errFile
      else if has old.options SUB_OUT_FILE then old.outFile else "/dev/null" := by
  have he : m.bill.errFile = if has m.subReq.options SUB_ERR_FILE then (mergeFields env m.factor old req).errFile
      else if has m.subReq.options SUB_OUT_FILE then m.bill.outFile else "/dev/null" := by
    conv_lhs => rw [m.bill_eq]
  have hmer : (mergeFields env m.factor old req).errFile =
      if has old.options SUB_ERR_FILE then old.errFile else "" := mergeField_unnamed hname
  rw [he, m.has_plain (by decide) hname, hmer]
  by_cases hset : has old.options SUB_ERR_FILE = true
  · simp only [hset, if_true]
  · have hn := ho.resolve_left hset
    rw [if_neg hset, if_neg hset, m.has_plain (by decide) hn]
    by_cases hf : has old.options SUB_OUT_FILE = true
    · rw [if_pos hf, if_pos hf]
      exact (m.strings_eq .outFile hn).trans (if_pos hf)
    · rw [if_neg hf, if_neg hf]

theorem inFile_eq (hname : req.namesInFile = false) : m.bill.inFile =
    (if has old.options2 SUB2_IN_FILE_SPOOL || has old.options SUB_IN_FILE then old.inFile else "/dev/null") ∧
    m.bill.inFileSpool = if has old.options2 SUB2_IN_FILE_SPOOL then old.inFileSpool else "/dev/null" := by
  have hb : has m.subReq.options SUB_IN_FILE =
      (!has old.options2 SUB2_IN_FILE_SPOOL && has old.options SUB_IN_FILE) := by
    rw [has_eq m.subReq.options, m.checked.bit _ (by decide), m.merged_bit (by decide) (by rw [namesBit_inFile, hname])]
    simp [keptBit]
  have hs : has m.merged.options2 SUB2_IN_FILE_SPOOL = has old.options2 SUB2_IN_FILE_SPOOL := by
    rw [has_eq, has_eq, m.merged_bit2 (by decide) (by rw [namesBit2_inFile, hname])]
    rfl
  have hf : mergeInFile old req = ⟨!has old.options2 SUB2_IN_FILE_SPOOL && has old.options SUB_IN_FILE,
      has old.options2 SUB2_IN_FILE_SPOOL, old.inFile, old.inFileSpool⟩ := by
    simp only [namesInFile, names, names2, Bool.or_eq_false_iff] at hname
    simp [mergeInFile, hname]
  have hin : m.bill.inFile = if has m.merged.options2 SUB2_IN_FILE_SPOOL || has m.subReq.options SUB_IN_FILE then
      (mergeInFile old req).inFile else "/dev/null" := by
    conv_lhs => rw [m.bill_eq]
    rfl
  have hc : m.bill.inFileSpool = if has m.merged.options2 SUB2_IN_FILE_SPOOL then (mergeInFile old req).inFileSpool
      else "/dev/null" := by
    conv_lhs => rw [m.bill_eq]
    rfl
  rw [hin, hc, hs, hb, hf]
  refine ⟨?_, rfl⟩
  cases has old.options2 SUB2_IN_FILE_SPOOL <;> rfl

theorem command_eq (hname : req.namesCommand = false) : m.bill.command = old.command ∧
    m.bill.commandSpool = if has old.options2 SUB2_JOB_CMD_SPOOL then old.commandSpool else "" := by
  have hc : m.cmd =
      ⟨[(SUB2_JOB_CMD_SPOOL, has old.options2 SUB2_JOB_CMD_SPOOL)], old.command, old.commandSpool⟩ := by
    have h := m.cmd_ok
    simp only [namesCommand, names2, Bool.or_eq_false_iff] at hname
    simp only [mergeCommand, hname, Bool.false_eq_true, if_false] at h
    injection h with h
    exact h.symm
  have hs : has m.merged.options2 SUB2_JOB_CMD_SPOOL = has old.options2 SUB2_JOB_CMD_SPOOL := by
    rw [has_eq, has_eq, m.merged_bit2 (by decide) (by rw [namesBit2_spool, hname])]
    rfl
  have hcopy : m.bill.commandSpool = if has m.merged.options2 SUB2_JOB_CMD_SPOOL then m.cmd.commandSpool else "" := by
    conv_lhs => rw [m.bill_eq]
  refine ⟨?_, ?_⟩
  · rw [m.bill_eq]
    rw [hc]
  · rw [hcopy, hs, hc]

/-! Limits -/

theorem merged_limits : m.merged.rLimits = mergedLimit env old req := by
  rw [m.merged_eq]
  unfold mergedLimit
  rw [m.factor_ok]
  rfl

theorem limited_merged : limited m.merged = scaledAgain env old req := by
  unfold limited scaledAgain
  rw [m.merged_limits]

theorem merged_hostSpec_bit : has m.merged.options SUB_HOST_SPEC = has req.submitReq.options SUB_HOST_SPEC := by
  rw [m.merged_eq, has_eq]
  unfold mergeFields
  rw [collect_bit _ (by decide)]
  simp

theorem limitSpec_merged : limitSpec env qp m.merged = scaledWith env qp old req := by
  have hs : m.merged.hostSpec = if scaling old req.submitReq then old.hostSpec
      else if has req.submitReq.options SUB_HOST_SPEC then req.submitReq.hostSpec else "" := by
    rw [m.merged_eq]
    rfl
  have hd : defaultSpec env qp m.merged = defaultSpec env qp old := by
    have hf : m.merged.fromHost = old.fromHost := by
      rw [m.merged_eq]
      rfl
    unfold defaultSpec
    rw [hf]
  unfold limitSpec scaledWith
  rw [m.merged_hostSpec_bit, hs, hd]
  cases has req.submitReq.options SUB_HOST_SPEC <;> rfl

theorem hostSpec_eq (hname : req.namesHostSpec = false) :
    m.bill.hostSpec = if scaledAgain env old req then defaultSpec env qp old else "" := by
  have hn : has req.submitReq.options SUB_HOST_SPEC = false := by
    simp only [namesHostSpec, names, Bool.or_eq_false_iff] at hname
    exact hname.1.1.1
  have hb : has m.subReq.options SUB_HOST_SPEC = scaledAgain env old req := by
    rw [← m.limited_merged, has_eq, m.checked.bit _ (by decide), ← has_eq, m.merged_hostSpec_bit, hn]
    simp
  have hs : m.bill.hostSpec = if has m.subReq.options SUB_HOST_SPEC then m.subReq.hostSpec else "" := by
    conv_lhs => rw [m.bill_eq]
  rw [hs, hb, m.checked.hostSpec, m.limited_merged, m.limitSpec_merged]
  unfold scaledWith
  rw [hn]
  cases scaledAgain env old req <;> rfl

theorem mergedLimit_unnamed (env : SubmitEnv) (hname : req.namesLimit i = false)
    (hpla : ¬((i = .CPU ∨ i = .RUN) ∧ 0 < old.rLimits i)) : mergedLimit env old req i = old.rLimits i := by
  have hd : req.submitReq.rLimits i = DEFAULT_RLIMIT := by simpa [namesLimit] using hname
  have hs : rescaled old req.submitReq i = false := by
    rw [Bool.eq_false_iff]
    intro h
    simp only [rescaled, Bool.and_eq_true, Bool.or_eq_true, decide_eq_true_eq, beq_iff_eq] at h
    exact hpla ⟨h.2, h.1.2⟩
  unfold mergedLimit mergeLimit
  rw [hd, hs]
  simp

/-- A limit that is not named comes back iff it is not scaled, or scaled back. -/
theorem rLimits_iff (hname : req.namesLimit i = false) : m.bill.rLimits i = old.rLimits i ↔
    (i = .CPU ∨ i = .RUN → 0 < old.rLimits i → 0 < mergedLimit env old req i ∧
      ∃ factor, env.cpuFactor (scaledWith env qp old req) = some factor ∧
        normalLimit factor (mergedLimit env old req i) = .ok (old.rLimits i)) := by
  have hb : m.bill.rLimits i = m.subReq.rLimits i := by rw [m.bill_eq]
  have hc := m.checked.limits i
  rw [m.limitSpec_merged, m.merged_limits] at hc
  rw [hb]
  by_cases hpla : (i = .CPU ∨ i = .RUN) ∧ 0 < old.rLimits i
  · obtain ⟨hi, hpos⟩ := hpla
    unfold LimitChecked at hc
    by_cases hmer : 0 < mergedLimit env old req i
    · rw [if_pos ⟨hi, hmer⟩] at hc
      obtain ⟨factor, hf, hn⟩ := hc
      constructor
      · intro h _ _
        exact ⟨hmer, factor, hf, by rw [hn, h]⟩
      · intro h
        obtain ⟨-, factor', hf', hn'⟩ := h hi hpos
        rw [hf] at hf'
        cases hf'
        rw [hn] at hn'
        injection hn'
    · rw [if_neg fun h => hmer h.2] at hc
      constructor
      · omega
      · intro h
        exact absurd (h hi hpos).1 hmer
  · have hs := mergedLimit_unnamed env hname hpla
    unfold LimitChecked at hc
    rw [hs, if_neg hpla] at hc
    rw [hc]
    exact iff_of_true rfl fun hi hpos => absurd ⟨hi, hpos⟩ hpla

theorem limitIsOk_merged (hname : req.namesSizes = false) : limitIsOk m.merged.rLimits = limitIsOk old.rLimits := by
  have hs : ∀ i ∈ [Rlimit.FSIZE, .DATA, .STACK, .CORE, .RSS, .VMEM], m.merged.rLimits i = old.rLimits i := by
    intro i hi
    rw [m.merged_limits]
    refine mergedLimit_unnamed env ?_ ?_
    · simpa using any_eq_false.mp hname i hi
    · rintro ⟨rfl | rfl, -⟩ <;> simp at hi
  unfold limitIsOk
  rw [Bool.eq_iff_iff, all_eq_true, all_eq_true]
  exact forall₂_congr fun i hi => by rw [hs i hi]

theorem procs_eq (hname : req.namesProcs = false) : (m.bill.numProcessors, m.bill.maxNumProcessors) =
    if has old.options2 SUB2_USE_DEF_PROCLIMIT then (defaultProcs qp, defaultProcs qp)
    else (old.numProcessors, old.maxNumProcessors) := by
  have hbit : has m.merged.options2 SUB2_USE_DEF_PROCLIMIT = has old.options2 SUB2_USE_DEF_PROCLIMIT := by
    rw [m.merged_eq, has_eq]
    rw [BitVec.getLsbD_or, mergeCommand_other m.cmd_ok (by decide) (by decide) (by decide), Bool.or_false]
    unfold mergeFields
    rw [collect_bit _ (by decide), mergeProcs_unnamed hname]
    simp
  have hmer : m.merged.numProcessors = old.numProcessors ∧ m.merged.maxNumProcessors = old.maxNumProcessors := by
    rw [m.merged_eq]
    dsimp only [mergeFields]
    rw [mergeProcs_unnamed hname]
    exact ⟨rfl, rfl⟩
  have hb : (m.bill.numProcessors, m.bill.maxNumProcessors) =
      (m.subReq.numProcessors, m.subReq.maxNumProcessors) := by
    rw [m.bill_eq]
  rw [hb, m.checked.procs, hbit, hmer.1, hmer.2]

theorem plain_or (hi : i < 32) : plain i ∨ i ∈ [1, 3, 9, 10, 16, 23, 25, 27, 28, 29, 30, 31] := by
  revert i
  decide

/-! The bits of the first word, place by place -/

theorem bit_plain (hpla : plain i) (hname : req.namesBit i = false) : m.bill.options.getLsbD i =
    (old.options.getLsbD i && !(has req.submitReq.options SUB_RERUNNABLE && !has req.delOptions SUB_RERUNNABLE &&
      decide (SUB_EXCLUSIVE.pos = i))) := by
  have ho : i < 32 ∧ ¬1 = i ∧ ¬25 = i ∧ ¬16 = i := by
    simp only [mem_cons, not_mem_nil, or_false] at hpla
    omega
  rw [m.bill_bit ho.1 hname, keptBit_plain hpla]
  simp [ho]

theorem bit_lost (hi : i ∈ [9, 10, 23, 28, 29, 30]) (hname : req.namesBit i = false) :
    m.bill.options.getLsbD i = false := by
  simp only [mem_cons, not_mem_nil, or_false] at hi
  rcases hi with rfl | rfl | rfl | rfl | rfl | rfl <;>
  · rw [m.bill_bit (by decide) hname]
    simp [keptBit]

theorem bit_queue (hname : req.names SUB_QUEUE = false) : has m.bill.options SUB_QUEUE = true := by
  rw [← namesBit_own req (by decide)] at hname
  rw [has_eq, m.bill_bit (by decide) hname]
  simp

theorem bit_inFile (hname : req.namesInFile = false) : has m.bill.options SUB_IN_FILE =
    (!has old.options2 SUB2_IN_FILE_SPOOL && has old.options SUB_IN_FILE) := by
  rw [← namesBit_inFile] at hname
  rw [has_eq m.bill.options, m.bill_bit (by decide) hname]
  simp [keptBit]

theorem bit_hostSpec (hname : req.namesHostSpec = false) : has m.bill.options SUB_HOST_SPEC = scaledAgain env old req := by
  rw [← namesBit_hostSpec] at hname
  rw [has_eq, m.bill_bit (by decide) hname, m.limited_merged]
  simp [keptBit]

theorem bit_project (hname : req.names SUB_PROJECT_NAME = false) :
    has m.bill.options SUB_PROJECT_NAME = (has old.options SUB_PROJECT_NAME || m.merged.projectName == "") := by
  rw [← namesBit_own req (by decide)] at hname
  rw [has_eq m.bill.options, m.bill_bit (by decide) hname]
  simp [keptBit, has_eq]

theorem bit_pty (hname : req.names SUB_PTY = false) :
    has m.bill.options SUB_PTY = (has old.options SUB_PTY || has old.options SUB_PTY_SHELL) := by
  rw [← namesBit_own req (by decide)] at hname
  rw [has_eq m.bill.options, m.bill_bit (by decide) hname]
  simp [keptBit]

theorem bit_unit (hname : req.names SUB_RLIMIT_UNIT_IS_KB = false) (hs : req.namesSizes = false) :
    has m.bill.options SUB_RLIMIT_UNIT_IS_KB = !limitIsOk old.rLimits := by
  have hname' : req.namesBit SUB_RLIMIT_UNIT_IS_KB.pos = false := by rw [namesBit_unit, hname, hs]; rfl
  rw [has_eq, m.bill_bit (by decide) hname', m.limitIsOk_merged hs]
  simp [keptBit]

theorem merged_projectName (hname : req.names SUB_PROJECT_NAME = false) :
    m.merged.projectName = if has old.options SUB_PROJECT_NAME then old.projectName else "" := by
  rw [m.merged_eq]
  exact mergeField_unnamed hname

theorem options_of_harmless (h : Harmless env qp old req) (hname : req.namesBit i = false) :
    m.bill.options.getLsbD i = old.options.getLsbD i := by
  by_cases hi : i < 32
  swap
  · rw [BitVec.getLsbD_of_ge _ _ (not_lt.mp hi), BitVec.getLsbD_of_ge _ _ (not_lt.mp hi)]
  have ho : ∀ f : Flag, f.pos = i → f.pos ∉ [3, 10, 16, 31] → req.names f = false := fun f hf ho => by
    rw [← namesBit_own req ho, hf, hname]
  rcases plain_or hi with hpla | hs
  · rw [m.bit_plain hpla hname]
    by_cases hex : SUB_EXCLUSIVE.pos = i
    · have hex' := h.exclusive (ho _ hex (by decide))
      rw [has_eq old.options, hex] at hex'
      cases hset : has req.submitReq.options SUB_RERUNNABLE with
      | false => simp
      | true =>
        cases hd : has req.delOptions SUB_RERUNNABLE with
        | true => simp
        | false => simp [hex' hset hd]
    · simp only [hex, decide_false, Bool.and_false, Bool.not_false, Bool.and_true]
  · simp only [mem_cons, not_mem_nil, or_false] at hs
    have hl : i ∈ [9, 10, 23, 28, 29, 30] → m.bill.options.getLsbD i = old.options.getLsbD i := fun hmem => by
      rw [m.bit_lost hmem hname, h.lost i hmem hname]
    have hflag : ∀ f : Flag, f.pos = i → has m.bill.options f = has old.options f →
        m.bill.options.getLsbD i = old.options.getLsbD i := fun f hf hsame => by
      rwa [has_eq, has_eq, hf] at hsame
    rcases hs with rfl | rfl | rfl | rfl | rfl | rfl | rfl | rfl | rfl | rfl | rfl | rfl
    · have hq := ho SUB_QUEUE rfl (by decide)
      exact hflag SUB_QUEUE rfl ((m.bit_queue hq).trans (h.queue hq).1.symm)
    · have hin : req.namesInFile = false := (namesBit_inFile req).symm.trans hname
      refine hflag SUB_IN_FILE rfl ((m.bit_inFile hin).trans ?_)
      have hone := (h.inFile hin).1
      cases hs : has old.options2 SUB2_IN_FILE_SPOOL with
      | false => rfl
      | true => simp [hone hs]
    · exact hl (by decide)
    · exact hl (by decide)
    · have hs : req.namesHostSpec = false := (namesBit_hostSpec req).symm.trans hname
      exact hflag SUB_HOST_SPEC rfl ((m.bit_hostSpec hs).trans (h.hostSpec hs).1.symm)
    · exact hl (by decide)
    · have hpro := ho SUB_PROJECT_NAME rfl (by decide)
      refine hflag SUB_PROJECT_NAME rfl ((m.bit_project hpro).trans ?_)
      rw [(h.projectName hpro).1, Bool.true_or]
    · have hpty := ho SUB_PTY rfl (by decide)
      refine hflag SUB_PTY rfl ((m.bit_pty hpty).trans ?_)
      cases hs : has old.options SUB_PTY_SHELL with
      | false => rw [Bool.or_false]
      | true => rw [h.pty hpty hs, Bool.or_self]
    · exact hl (by decide)
    · exact hl (by decide)
    · exact hl (by decide)
    · have hu : (req.names SUB_RLIMIT_UNIT_IS_KB || req.namesSizes) = false := (namesBit_unit req).symm.trans hname
      obtain ⟨hu, hs⟩ := Bool.or_eq_false_iff.mp hu
      exact hflag SUB_RLIMIT_UNIT_IS_KB rfl ((m.bit_unit hu hs).trans (h.unit hu hs).symm)

theorem bit2_lost (hl : i = 1 ∨ i = 5 ∨ 11 ≤ i) (hname : req.namesBit2 i = false) :
    m.bill.options2.getLsbD i = false := by
  by_cases hi : i < 32
  · rw [m.bill_bit2 hi hname]
    unfold keptBit2
    split <;> first | rfl | omega
  · exact BitVec.getLsbD_of_ge _ _ (not_lt.mp hi)

theorem options2_of_harmless (h : Harmless env qp old req) (hname : req.namesBit2 i = false) :
    m.bill.options2.getLsbD i = old.options2.getLsbD i := by
  by_cases hl : i = 1 ∨ i = 5 ∨ 11 ≤ i
  · rw [h.lost2 i hl hname, m.bit2_lost hl hname]
  · rw [m.bill_bit2 (by omega) hname]
    have hkept : i ∈ [0, 2, 3, 4, 6, 7, 8, 9, 10] := by
      simp only [mem_cons, not_mem_nil, or_false]
      omega
    simp only [mem_cons, not_mem_nil, or_false] at hkept
    rcases hkept with rfl | rfl | rfl | rfl | rfl | rfl | rfl | rfl | rfl <;> rfl

theorem jobName_eq (hname : req.names SUB_JOB_NAME = false)
    (hc : has old.options SUB_JOB_NAME = true ∨ req.namesCommand = false) : m.bill.jobName = old.jobName := by
  rw [m.bill_eq]
  show mergeJobName old req = old.jobName
  simp only [names, Bool.or_eq_false_iff] at hname
  rcases hc with hset | hc
  · simp [mergeJobName, hname, hset]
  · simp only [namesCommand, names2, Bool.or_eq_false_iff] at hc
    simp [mergeJobName, hname, hc]

theorem askedHosts_eq (hname : req.names SUB_HOST = false) :
    m.bill.askedHosts = if has old.options SUB_HOST then old.askedHosts else [] := by
  rw [m.bill_eq]
  exact mergeField_unnamed hname

theorem sigValue_eq (hname : req.names SUB_WINDOW_SIG = false) :
    m.bill.sigValue = if has old.options SUB_WINDOW_SIG then old.sigValue else 0 := by
  rw [m.bill_eq]
  exact mergeField_unnamed hname

theorem userPriority_eq (hname : req.names2 SUB2_JOB_PRIORITY = false) : m.bill.userPriority =
    if has old.options2 SUB2_JOB_PRIORITY then old.userPriority
    else if env.maxUserPriority < 0 then -1 else env.maxUserPriority / 2 := by
  rw [m.bill_eq]
  exact mergeField_unnamed hname

theorem xf_eq (hname : req.names SUB_OTHER_FILES = false) :
    m.bill.xf = if has old.options SUB_OTHER_FILES then old.xf else [] := by
  rw [m.bill_eq]
  exact mergeField_unnamed hname

theorem projectName_eq (hname : req.names SUB_PROJECT_NAME = false) (hset : has old.options SUB_PROJECT_NAME = true) :
    m.bill.projectName = if old.projectName = "" then env.getDefaultProject else old.projectName := by
  have hmer := m.merged_projectName hname
  rw [hset, if_pos rfl] at hmer
  rw [m.bill_eq]
  rw [m.checked.projectName, hmer]

theorem chkpntPeriod_eq (hname : req.namesChkpnt = false) : m.bill.chkpntPeriod = 0 := by
  obtain ⟨hd, hper⟩ := Bool.or_eq_false_iff.mp hname
  rw [(m.bill_chkpnt hd).2, m.merged_eq]
  show (if has req.submitReq.options SUB_CHKPNT_PERIOD then req.submitReq.chkpntPeriod else 0) = 0
  rw [(Bool.or_eq_false_iff.mp hper).1]
  rfl

theorem framed_of_harmless (h : Harmless env qp old req) : Framed old req m.bill where
  options i hname := m.options_of_harmless h hname
  options2 i hname := m.options2_of_harmless h hname
  jobName := m.jobName_eq
  queue hname := by
    rw [m.bill_eq]
    exact (h.queue hname).2.symm
  askedHosts hname := (m.askedHosts_eq hname).trans (kept_iff.mpr (h.askedHosts hname))
  strings f hname := (m.strings_eq f hname).trans (kept_iff.mpr (h.strings f hname))
  errFile hname ho := (m.errFile_eq hname ho).trans (kept_iff.mpr (ho.elim .inl fun ho => h.errFile hname ho))
  projectName hname := by
    obtain ⟨hset, hd⟩ := h.projectName hname
    rw [m.projectName_eq hname hset]
    split
    · case isTrue hn => rw [hn, hd hn]
    · rfl
  inFile hname := by
    obtain ⟨hin, hc⟩ := m.inFile_eq hname
    rw [hin, hc, kept_iff, kept_iff]
    rcases (h.inFile hname).2 with hs | ⟨hn, hset | hnull⟩
    · exact ⟨.inl (by rw [hs, Bool.true_or]), .inl hs⟩
    · exact ⟨.inl (by rw [hset, Bool.or_true]), .inr hn⟩
    · exact ⟨.inr hnull, .inr hn⟩
  command hname := (m.command_eq hname).imp_right fun hc => hc.trans (kept_iff.mpr (h.command hname))
  hostSpec hname := (m.hostSpec_eq hname).trans (h.hostSpec hname).2.symm
  chkpntPeriod hname := (m.chkpntPeriod_eq hname).trans (h.chkpntPeriod hname).symm
  sigValue hname := (m.sigValue_eq hname).trans (kept_iff.mpr (h.sigValue hname))
  userPriority hname := (m.userPriority_eq hname).trans (kept_iff.mpr (h.userPriority hname))
  xf hname := (m.xf_eq hname).trans (kept_iff.mpr (h.xf hname))
  rLimits i hname := (m.rLimits_iff hname).mpr fun hi hpos => h.rLimits i hi hname hpos
  beginTime hz := by
    rw [m.bill_eq]
    show mergeTime old.beginTime req.submitReq.beginTime = old.beginTime
    rw [hz]
    rfl
  termTime hz := by
    rw [m.bill_eq]
    show mergeTime old.termTime req.submitReq.termTime = old.termTime
    rw [hz]
    rfl
  procs hname := by
    have hpro := m.procs_eq hname
    by_cases hd : has old.options2 SUB2_USE_DEF_PROCLIMIT = true
    · obtain ⟨hn, hmax⟩ := h.procs hname hd
      rw [if_pos hd] at hpro
      obtain ⟨hn', hmax'⟩ := Prod.mk.inj hpro
      exact ⟨hn'.trans hn.symm, hmax'.trans hmax.symm⟩
    · rw [if_neg hd] at hpro
      exact Prod.mk.inj hpro
  submitter := by
    rw [m.bill_eq]
    exact ⟨rfl, rfl, rfl, rfl, rfl, rfl, rfl, rfl, rfl⟩

theorem has_of_framed (h : Framed old req m.bill) (hname : req.namesBit f.pos = false) :
    has m.bill.options f = has old.options f := by
  rw [has_eq, has_eq, h.options _ hname]

theorem harmless_of_framed (h : Framed old req m.bill) : Harmless env qp old req where
  lost i hmem hname := by rw [← h.options i hname, m.bit_lost hmem hname]
  lost2 i hl hname := by rw [← h.options2 i hname, m.bit2_lost hl hname]
  exclusive hname hset hd := by
    rw [← namesBit_own req (by decide)] at hname
    rw [← m.has_of_framed h hname, has_eq, m.bit_plain (by decide) hname]
    simp [hset, hd]
  pty hname hs := by
    rw [← m.has_of_framed h ((namesBit_own req (by decide)).trans hname), m.bit_pty hname, hs, Bool.or_true]
  unit hname hs := by
    rw [← m.has_of_framed h (by rw [namesBit_unit, hname, hs]; rfl), m.bit_unit hname hs]
  queue hname := by
    refine ⟨?_, ?_⟩
    · rw [← m.has_of_framed h ((namesBit_own req (by decide)).trans hname), m.bit_queue hname]
    · rw [← h.queue hname, m.bill_eq]
  projectName hname := by
    have hset : has old.options SUB_PROJECT_NAME = true := by
      have hb := m.bit_project hname
      rw [m.has_of_framed h ((namesBit_own req (by decide)).trans hname), m.merged_projectName hname] at hb
      cases hold : has old.options SUB_PROJECT_NAME with
      | true => rfl
      | false => simp [hold] at hb
    refine ⟨hset, fun hn => ?_⟩
    have hs := h.projectName hname
    rwa [m.projectName_eq hname hset, if_pos hn, hn] at hs
  askedHosts hname := kept_iff.mp ((m.askedHosts_eq hname).symm.trans (h.askedHosts hname))
  strings f hname := kept_iff.mp ((m.strings_eq f hname).symm.trans (h.strings f hname))
  errFile hname ho := kept_iff.mp ((m.errFile_eq hname (.inr ho)).symm.trans (h.errFile hname (.inr ho)))
  inFile hname := by
    obtain ⟨hin, hc⟩ := m.inFile_eq hname
    obtain ⟨hin', hc'⟩ := h.inFile hname
    rw [hin, kept_iff] at hin'
    rw [hc, kept_iff] at hc'
    refine ⟨fun hs => ?_, ?_⟩
    · rw [← m.has_of_framed h ((namesBit_inFile req).trans hname), m.bit_inFile hname, hs]
      rfl
    · rcases hc' with hs | hn
      · exact .inl hs
      · rw [Bool.or_eq_true, or_assoc] at hin'
        exact hin'.imp_right fun hr => ⟨hn, hr⟩
  command hname := kept_iff.mp ((m.command_eq hname).2.symm.trans (h.command hname).2)
  hostSpec hname := by
    refine ⟨?_, (h.hostSpec hname).symm.trans (m.hostSpec_eq hname)⟩
    rw [← m.has_of_framed h ((namesBit_hostSpec req).trans hname), m.bit_hostSpec hname]
  chkpntPeriod hname := (h.chkpntPeriod hname).symm.trans (m.chkpntPeriod_eq hname)
  sigValue hname := kept_iff.mp ((m.sigValue_eq hname).symm.trans (h.sigValue hname))
  userPriority hname := kept_iff.mp ((m.userPriority_eq hname).symm.trans (h.userPriority hname))
  xf hname := kept_iff.mp ((m.xf_eq hname).symm.trans (h.xf hname))
  rLimits i hi hname hpos := (m.rLimits_iff hname).mp (h.rLimits i hname) hi hpos
  procs hname hd := by
    have hpro := m.procs_eq hname
    rw [if_pos hd, (h.procs hname).1, (h.procs hname).2] at hpro
    exact Prod.mk.inj hpro

end Modification

theorem applyParameters_stay (hs : jpbw.qPtr = qPtr) : (applyParameters qPtr oldMaxCpus subReq req jpbw).jobBill =
      applyRerunnable req (applyChkpnt req subReq jpbw.jobBill) := by
  unfold applyParameters
  dsimp only
  split
  · rfl
  · rw [if_neg (not_not.mpr hs)]

theorem handleJParameters_pend (hpend : jpbw.jStatus.mask.isPend = true) (hf : jpbw.jStatus.mask.isFinish = false)
    (m : Modification env jpbw.qPtr jpbw.jobBill req) :
    (handleJParameters env modifyAllJobs jpbw jpbw.qPtr m.stored req).jobBill = m.bill := by
  have hc : copyJobBill env.now m.stored none = m.stored := copyJobBill_copy env.now m.subReq
  unfold handleJParameters Modification.bill
  dsimp only
  rw [hpend, hf, Bool.and_false, Bool.true_or, if_pos rfl, if_neg Bool.false_ne_true, applyParameters_stay, hc]
  -- the old parameters that are saved for a modification for one start are not those of the bill
  split <;> rfl

/-- What the request does not name has its old value exactly if it is `Harmless`. -/
theorem modify_framed_iff (env : SubmitEnv) (checks : ParamChecks) (keepDepend modifyAllJobs : Bool) (jpbw : ModJob)
    (req : ModifyReq) (merged subReq : SubmitReq) (hpend : jpbw.jStatus.mask.isPend = true)
    (hfinish : jpbw.jStatus.mask.isFinish = false) (hmerge : getMergeSubReq env jpbw.jobBill req = .ok merged)
    (hcheck : checkJobParams env checks keepDepend merged = .ok (jpbw.qPtr, subReq)) : Framed jpbw.jobBill req
        (handleJParameters env modifyAllJobs jpbw jpbw.qPtr (copyJobBill env.now subReq none) req).jobBill ↔
      Harmless env jpbw.qPtr jpbw.jobBill req := by
  obtain ⟨m, rfl⟩ := Modification.exists_of_ok hmerge hcheck
  have hb : (handleJParameters env modifyAllJobs jpbw jpbw.qPtr (copyJobBill env.now m.subReq none) req).jobBill =
      m.bill := handleJParameters_pend hpend hfinish m
  rw [hb]
  exact ⟨m.harmless_of_framed, m.framed_of_harmless⟩

section

/-- A stored submission to the queue `normal` for exclusive use. -/
def exclusiveBill : SubmitReq :=
  { options := SUB_EXCLUSIVE.mask ||| SUB_QUEUE.mask ||| SUB_PROJECT_NAME.mask
    queue := "normal", projectName := "default", command := "a.out"
    inFile := "/dev/null", outFile := "/dev/null", errFile := "/dev/null", inFileSpool := "/dev/null" }

def exclusiveJob : ModJob :=
  { jStatus := { mask := Mask.PEND }, jobBill := exclusiveBill, qPtr := { queue := "normal" }, jobIdStr := "7" }

/-- `bmod` with the bits of `options` and nothing else. -/
def bmod (options : BitVec 32) : ModifyReq :=
  { submitReq := { options := SUB_MODIFY.mask ||| options, numProcessors := DEFAULT_NUMPRO } }

/-- The request to notify the begin of the exclusive job leaves the rest alone. -/
theorem modify_framed_notify : ∃ merged subReq,
    getMergeSubReq {} exclusiveBill (bmod SUB_NOTIFY_BEGIN.mask) = .ok merged ∧
    checkJobParams {} { queues := fun _ => [exclusiveJob.qPtr] } true merged = .ok (exclusiveJob.qPtr, subReq) ∧
    Framed exclusiveBill (bmod SUB_NOTIFY_BEGIN.mask) (handleJParameters {} false exclusiveJob exclusiveJob.qPtr
      (copyJobBill 0 subReq none) (bmod SUB_NOTIFY_BEGIN.mask)).jobBill := by
  refine ⟨_, _, rfl, rfl, (modify_framed_iff {} { queues := fun _ => [exclusiveJob.qPtr] } true false exclusiveJob
    (bmod SUB_NOTIFY_BEGIN.mask) _ _ rfl rfl rfl rfl).mpr ?_⟩
  constructor
  case lost => decide
  case lost2 => simp [exclusiveJob, exclusiveBill]
  case strings => exact fun f _ => by cases f <;> exact .inr rfl
  case rLimits => exact fun _ _ _ hpos => absurd hpos (show ¬(0 : Int) < -1 by decide)
  all_goals decide

/-- The request to make it rerunnable makes it not exclusive. -/
theorem modify_rerun_exclusive : let req := bmod SUB_RERUNNABLE.mask
    ∃ jpbw, modifyAJob {} { queues := fun _ => [exclusiveJob.qPtr] } false true false (fun _ _ => none) exclusiveJob
        req = .ok jpbw ∧
      jpbw.qPtr = exclusiveJob.qPtr ∧ req.names SUB_EXCLUSIVE = false ∧
      has exclusiveJob.jobBill.options SUB_EXCLUSIVE = true ∧ has jpbw.jobBill.options SUB_EXCLUSIVE = false :=
  ⟨_, rfl, rfl, by decide, by decide, by decide⟩

end

end OpenLava

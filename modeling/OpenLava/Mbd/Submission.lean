import Mathlib.Tactic.Simps.Basic
import OpenLava.Mbd.State
import OpenLava.OptionBits

/-!
Submissions: `struct submitReq` with its two words of options, how a modification is merged into an old submission
(`mergeSubReq`, `getMergeSubReq`), how the result is checked (`checkJobParams`) and how it is stored
(`copyJobBill`).
-/

namespace OpenLava

open Function OptionBits

@[simps pos] def SUB_JOB_NAME : Flag := ⟨0x01, 0, rfl⟩
@[simps pos] def SUB_QUEUE : Flag := ⟨0x02, 1, rfl⟩
@[simps pos] def SUB_HOST : Flag := ⟨0x04, 2, rfl⟩
@[simps pos] def SUB_IN_FILE : Flag := ⟨0x08, 3, rfl⟩
@[simps pos] def SUB_OUT_FILE : Flag := ⟨0x10, 4, rfl⟩
@[simps pos] def SUB_ERR_FILE : Flag := ⟨0x20, 5, rfl⟩
@[simps pos] def SUB_EXCLUSIVE : Flag := ⟨0x40, 6, rfl⟩
@[simps pos] def SUB_NOTIFY_END : Flag := ⟨0x80, 7, rfl⟩
@[simps pos] def SUB_NOTIFY_BEGIN : Flag := ⟨0x100, 8, rfl⟩
@[simps pos] def SUB_USER_GROUP : Flag := ⟨0x200, 9, rfl⟩
@[simps pos] def SUB_CHKPNT_PERIOD : Flag := ⟨0x400, 10, rfl⟩
@[simps pos] def SUB_CHKPNT_DIR : Flag := ⟨0x800, 11, rfl⟩
@[simps pos] def SUB_RESTART_FORCE : Flag := ⟨0x1000, 12, rfl⟩
@[simps pos] def SUB_RESTART : Flag := ⟨0x2000, 13, rfl⟩
@[simps pos] def SUB_RERUNNABLE : Flag := ⟨0x4000, 14, rfl⟩
@[simps pos] def SUB_WINDOW_SIG : Flag := ⟨0x8000, 15, rfl⟩
@[simps pos] def SUB_HOST_SPEC : Flag := ⟨0x10000, 16, rfl⟩
@[simps pos] def SUB_DEPEND_COND : Flag := ⟨0x20000, 17, rfl⟩
@[simps pos] def SUB_RES_REQ : Flag := ⟨0x40000, 18, rfl⟩
@[simps pos] def SUB_OTHER_FILES : Flag := ⟨0x80000, 19, rfl⟩
@[simps pos] def SUB_PRE_EXEC : Flag := ⟨0x100000, 20, rfl⟩
@[simps pos] def SUB_LOGIN_SHELL : Flag := ⟨0x200000, 21, rfl⟩
@[simps pos] def SUB_MAIL_USER : Flag := ⟨0x400000, 22, rfl⟩
@[simps pos] def SUB_MODIFY : Flag := ⟨0x800000, 23, rfl⟩
@[simps pos] def SUB_MODIFY_ONCE : Flag := ⟨0x1000000, 24, rfl⟩
@[simps pos] def SUB_PROJECT_NAME : Flag := ⟨0x2000000, 25, rfl⟩
@[simps pos] def SUB_INTERACTIVE : Flag := ⟨0x4000000, 26, rfl⟩
@[simps pos] def SUB_PTY : Flag := ⟨0x8000000, 27, rfl⟩
@[simps pos] def SUB_PTY_SHELL : Flag := ⟨0x10000000, 28, rfl⟩
@[simps pos] def SUB_RLIMIT_UNIT_IS_KB : Flag := ⟨0x80000000, 31, rfl⟩

@[simps pos] def SUB2_HOLD : Flag := ⟨0x01, 0, rfl⟩
@[simps pos] def SUB2_MODIFY_CMD : Flag := ⟨0x02, 1, rfl⟩
@[simps pos] def SUB2_BSUB_BLOCK : Flag := ⟨0x04, 2, rfl⟩
@[simps pos] def SUB2_HOST_NT : Flag := ⟨0x08, 3, rfl⟩
@[simps pos] def SUB2_HOST_UX : Flag := ⟨0x10, 4, rfl⟩
@[simps pos] def SUB2_QUEUE_CHKPNT : Flag := ⟨0x20, 5, rfl⟩
@[simps pos] def SUB2_QUEUE_RERUNNABLE : Flag := ⟨0x40, 6, rfl⟩
@[simps pos] def SUB2_IN_FILE_SPOOL : Flag := ⟨0x80, 7, rfl⟩
@[simps pos] def SUB2_JOB_CMD_SPOOL : Flag := ⟨0x100, 8, rfl⟩
@[simps pos] def SUB2_JOB_PRIORITY : Flag := ⟨0x200, 9, rfl⟩
@[simps pos] def SUB2_USE_DEF_PROCLIMIT : Flag := ⟨0x400, 10, rfl⟩
@[simps pos] def SUB2_MODIFY_RUN_JOB : Flag := ⟨0x800, 11, rfl⟩
@[simps pos] def SUB2_MODIFY_PEND_JOB : Flag := ⟨0x1000, 12, rfl⟩

def INFINIT_INT : Int := 0x7fffffff
def DELETE_NUMBER : Int := -2
def DEL_NUMPRO : Int := INFINIT_INT
def DEFAULT_NUMPRO : Int := INFINIT_INT - 1
def DEFAULT_RLIMIT : Int := -1

/-- The `LSF_RLIMIT_` indices; `SWAP` is the index `VMEM`. -/
inductive Rlimit where
  | CPU | FSIZE | DATA | STACK | CORE | RSS | NOFILE | OPEN_MAX | VMEM | RUN | PROCESS
  deriving DecidableEq, Repr

structure XFile where
  (subFn execFn : String)
  options : Int
  deriving DecidableEq, Repr

/-- `struct submitReq`; `numAskedHosts` and `nxf` are the lengths of the lists. -/
structure SubmitReq where
  (options options2 : BitVec 32 := 0)
  (jobName queue : String := "")
  askedHosts : List String := []
  resReq : String := ""
  rLimits : Rlimit → Int := fun _ => DEFAULT_RLIMIT
  hostSpec : String := ""
  numProcessors : Int := 1
  dependCond : String := ""
  (beginTime termTime sigValue : Int := 0)
  (subHomeDir inFile outFile errFile command inFileSpool commandSpool : String := "")
  chkpntPeriod : Int := 0
  chkpntDir : String := ""
  restartPid : Int := 0
  xf : List XFile := []
  (jobFile fromHost : String := "")
  (submitTime umask : Int := 0)
  (cwd preExecCmd mailUser projectName : String := "")
  niosPort : Int := 0
  maxNumProcessors : Int := 1
  (loginShell schedHostType : String := "")
  userPriority : Int := -1

/-- `struct modifyReq` -/
structure ModifyReq where
  submitReq : SubmitReq := {}
  (delOptions delOptions2 : BitVec 32 := 0)

/-- What the merging and the check read besides; checks that only refuse are parameters. -/
structure SubmitEnv where
  maxUserPriority : Int := -1
  isAdmin : Bool := false -- Whether the user is a manager or an administrator of the queue.
  getDefaultProject : String := "default"
  (getModelFactor getHostFactor : String → Option Float32 := fun _ => none)
  defaultHostSpec : Option String := none
  replaceJobInfoFile : Bool := true -- Whether `replace1stCmd_` and `replaceJobInfoFile` succeed.
  now : Int := 0

def SubmitEnv.cpuFactor (env : SubmitEnv) (spec : String) : Option Float32 :=
  (env.getModelFactor spec).or (env.getHostFactor spec)

/-- The macros `mergeStrField`, `mergeIntField` and their variants. -/
def mergeField {α : Type} (new old del : BitVec 32) (f : Flag) (newValue oldValue dflt : α) : α :=
  if has new f then newValue else if has old f && !has del f then oldValue else dflt

/-- `mergeFlagField`; the other macros set their bit likewise. -/
def mergeFlag (new old del : BitVec 32) (f : Flag) : Bool :=
  has new f || (has old f && !has del f)

/-- The input file and its spooled copy, with `SUB_IN_FILE` and `SUB2_IN_FILE_SPOOL`. -/
structure MergedInFile where
  (option spool : Bool)
  (inFile inFileSpool : String)

def mergeInFile (old : SubmitReq) (req : ModifyReq) : MergedInFile :=
  let new := req.submitReq
  if has new.options2 SUB2_IN_FILE_SPOOL then ⟨false, true, new.inFile, new.inFileSpool⟩
  else if has req.delOptions2 SUB2_IN_FILE_SPOOL then
    let named := has old.options SUB_IN_FILE || has old.options2 SUB2_IN_FILE_SPOOL
    ⟨named, false, if named then old.inFile else "", ""⟩
  else if has new.options SUB_IN_FILE then ⟨true, false, new.inFile, ""⟩
  else if has req.delOptions SUB_IN_FILE then ⟨false, false, "", ""⟩
  else
    let spool := has old.options2 SUB2_IN_FILE_SPOOL
    ⟨!spool && has old.options SUB_IN_FILE, spool, old.inFile, old.inFileSpool⟩

/-- A new name keeps the old index list; a new command may set the name. -/
def mergeJobName (old : SubmitReq) (req : ModifyReq) : String :=
  let new := req.submitReq
  if has new.options SUB_JOB_NAME then
    if has old.options SUB_JOB_NAME then
      new.jobName ++ String.ofList (old.jobName.toList.dropWhile (· != '['))
    else new.jobName
  else if has old.options SUB_JOB_NAME && !has req.delOptions SUB_JOB_NAME then old.jobName
  else if has new.options2 SUB2_MODIFY_CMD || has new.options2 SUB2_JOB_CMD_SPOOL then ""
  else old.jobName

structure MergedProcs where
  (numProcessors maxNumProcessors : Int)
  useDefault : Bool

def mergeProcs (old new : SubmitReq) : MergedProcs :=
  if new.numProcessors ≠ DEFAULT_NUMPRO ∧ new.numProcessors ≠ DEL_NUMPRO then
    ⟨new.numProcessors, new.maxNumProcessors, false⟩
  else if new.numProcessors = DEL_NUMPRO then ⟨1, 1, true⟩
  else ⟨old.numProcessors, old.maxNumProcessors, has old.options2 SUB2_USE_DEF_PROCLIMIT⟩

/-- `beginTime` and `termTime`: 0 leaves the old time, `DELETE_NUMBER` deletes it. -/
def mergeTime (old new : Int) : Int :=
  if new ≠ DELETE_NUMBER ∧ new ≠ 0 then new else if new = DELETE_NUMBER then 0 else old

/-- An `int` divided by a `float`, stored in an `int`. -/
def unscale (factor : Float32) (limit : Int) : Int :=
  (Float32.ofInt limit / factor).toInt32.toInt

def rescaled (old new : SubmitReq) (i : Rlimit) : Bool :=
  decide (new.rLimits i = DEFAULT_RLIMIT) && decide (0 < old.rLimits i) && (i == .CPU || i == .RUN)

def mergeLimit (factor : Float32) (old new : SubmitReq) (i : Rlimit) : Int :=
  if new.rLimits i ≠ DELETE_NUMBER ∧ new.rLimits i ≠ DEFAULT_RLIMIT then new.rLimits i
  else if new.rLimits i = DEFAULT_RLIMIT then
    if rescaled old new i then if factor != 0 then unscale factor (old.rLimits i) else DEFAULT_RLIMIT
    else old.rLimits i
  else DEFAULT_RLIMIT

/-- `limitIsOk_`: no limit that is scaled to bytes has more than 21 bits. -/
def limitIsOk (rLimits : Rlimit → Int) : Bool :=
  [Rlimit.FSIZE, .DATA, .STACK, .CORE, .RSS, .VMEM].all fun i =>
    !decide (0 < rLimits i) || (rLimits i).toNat >>> 21 == 0

def scaling (old new : SubmitReq) : Bool := rescaled old new .CPU || rescaled old new .RUN

def mergeFactor (env : SubmitEnv) (old new : SubmitReq) : Option Float32 :=
  if scaling old new then env.cpuFactor old.hostSpec else some 1

def mergeFields (env : SubmitEnv) (factor : Float32) (old : SubmitReq) (req : ModifyReq) : SubmitReq :=
  let new := req.submitReq
  let merge := mergeFlag new.options old.options req.delOptions
  let str (f : Flag) (get : SubmitReq → String) : String :=
    mergeField new.options old.options req.delOptions f (get new) (get old) ""
  let file := mergeInFile old req
  let procs := mergeProcs old new
  {
    options := collect [
      (SUB_INTERACTIVE, has old.options SUB_INTERACTIVE),
      (SUB_PTY, has old.options SUB_PTY),
      (SUB_PTY, has old.options SUB_PTY_SHELL),
      (SUB_JOB_NAME, merge SUB_JOB_NAME),
      (SUB_HOST, merge SUB_HOST),
      (SUB_QUEUE, merge SUB_QUEUE),
      (SUB_OUT_FILE, merge SUB_OUT_FILE),
      (SUB_ERR_FILE, merge SUB_ERR_FILE),
      (SUB_CHKPNT_DIR, merge SUB_CHKPNT_DIR),
      (SUB_DEPEND_COND, merge SUB_DEPEND_COND),
      (SUB_RES_REQ, merge SUB_RES_REQ),
      (SUB_PRE_EXEC, merge SUB_PRE_EXEC),
      (SUB_MAIL_USER, merge SUB_MAIL_USER),
      (SUB_PROJECT_NAME, merge SUB_PROJECT_NAME),
      (SUB_LOGIN_SHELL, merge SUB_LOGIN_SHELL),
      (SUB_IN_FILE, file.option),
      (SUB_HOST_SPEC, has new.options SUB_HOST_SPEC),
      (SUB_CHKPNT_PERIOD, has new.options SUB_CHKPNT_PERIOD),
      (SUB_EXCLUSIVE, merge SUB_EXCLUSIVE),
      (SUB_NOTIFY_END, merge SUB_NOTIFY_END),
      (SUB_NOTIFY_BEGIN, merge SUB_NOTIFY_BEGIN),
      (SUB_RERUNNABLE, merge SUB_RERUNNABLE),
      (SUB_MODIFY_ONCE, merge SUB_MODIFY_ONCE),
      (SUB_WINDOW_SIG, merge SUB_WINDOW_SIG),
      (SUB_RESTART, has new.options SUB_RESTART || has old.options SUB_RESTART),
      (SUB_RESTART_FORCE, has new.options SUB_RESTART_FORCE || has old.options SUB_RESTART_FORCE),
      (SUB_OTHER_FILES, merge SUB_OTHER_FILES),
      (SUB_RLIMIT_UNIT_IS_KB, !limitIsOk (mergeLimit factor old new))]
    options2 := collect [
      (SUB2_BSUB_BLOCK, has old.options2 SUB2_BSUB_BLOCK),
      (SUB2_HOLD, has old.options2 SUB2_HOLD),
      (SUB2_HOST_NT, has old.options2 SUB2_HOST_NT),
      (SUB2_HOST_UX, has old.options2 SUB2_HOST_UX),
      (SUB2_JOB_PRIORITY, mergeFlag new.options2 old.options2 req.delOptions2 SUB2_JOB_PRIORITY),
      (SUB2_IN_FILE_SPOOL, file.spool),
      (SUB2_QUEUE_RERUNNABLE, has old.options2 SUB2_QUEUE_RERUNNABLE),
      (SUB2_USE_DEF_PROCLIMIT, procs.useDefault)]
    cwd := old.cwd
    fromHost := old.fromHost
    subHomeDir := old.subHomeDir
    schedHostType := old.schedHostType
    jobFile := old.jobFile
    submitTime := old.submitTime
    umask := old.umask
    restartPid := old.restartPid
    niosPort := old.niosPort
    jobName := mergeJobName old req
    askedHosts := mergeField new.options old.options req.delOptions SUB_HOST new.askedHosts old.askedHosts []
    queue := str SUB_QUEUE SubmitReq.queue
    outFile := str SUB_OUT_FILE SubmitReq.outFile
    errFile := str SUB_ERR_FILE SubmitReq.errFile
    chkpntDir := str SUB_CHKPNT_DIR SubmitReq.chkpntDir
    dependCond := str SUB_DEPEND_COND SubmitReq.dependCond
    resReq := str SUB_RES_REQ SubmitReq.resReq
    preExecCmd := str SUB_PRE_EXEC SubmitReq.preExecCmd
    mailUser := str SUB_MAIL_USER SubmitReq.mailUser
    projectName := str SUB_PROJECT_NAME SubmitReq.projectName
    loginShell := str SUB_LOGIN_SHELL SubmitReq.loginShell
    userPriority := mergeField new.options2 old.options2 req.delOptions2 SUB2_JOB_PRIORITY new.userPriority
      old.userPriority (if env.maxUserPriority < 0 then -1 else env.maxUserPriority / 2)
    inFile := file.inFile
    inFileSpool := file.inFileSpool
    hostSpec := if scaling old new then old.hostSpec else if has new.options SUB_HOST_SPEC then new.hostSpec else ""
    chkpntPeriod := if has new.options SUB_CHKPNT_PERIOD then new.chkpntPeriod else 0
    sigValue := mergeField new.options old.options req.delOptions SUB_WINDOW_SIG new.sigValue old.sigValue 0
    xf := mergeField new.options old.options req.delOptions SUB_OTHER_FILES new.xf old.xf []
    rLimits := mergeLimit factor old new
    beginTime := mergeTime old.beginTime new.beginTime
    termTime := mergeTime old.termTime new.termTime
    numProcessors := procs.numProcessors
    maxNumProcessors := procs.maxNumProcessors }

def mergeSubReq (env : SubmitEnv) (old : SubmitReq) (req : ModifyReq) : Except Lsbe SubmitReq :=
  match mergeFactor env old req.submitReq with
  | none => .error .BAD_HOST_SPEC
  | some factor => .ok (mergeFields env factor old req)

/-- The command and its copy in the spool directory, with the bits they set in `options2`. -/
structure MergedCommand where
  bits : List (Flag × Bool)
  (command commandSpool : String)

/-- The command is also written to the job file, which can fail. -/
def mergeCommand (env : SubmitEnv) (old : SubmitReq) (req : ModifyReq) : Except Lsbe MergedCommand :=
  let new := req.submitReq
  if has new.options2 SUB2_JOB_CMD_SPOOL then
    if env.replaceJobInfoFile then .ok ⟨[(SUB2_JOB_CMD_SPOOL, true)], new.command, new.commandSpool⟩
    else .error .MBATCHD
  else if has req.delOptions2 SUB2_JOB_CMD_SPOOL then
    if has old.options2 SUB2_JOB_CMD_SPOOL && !env.replaceJobInfoFile then .error .MBATCHD
    else .ok ⟨[], old.command, ""⟩
  else if has new.options2 SUB2_MODIFY_CMD then
    if env.replaceJobInfoFile then .ok ⟨[(SUB2_MODIFY_CMD, true)], new.command, ""⟩ else .error .MBATCHD
  else .ok ⟨[(SUB2_JOB_CMD_SPOOL, has old.options2 SUB2_JOB_CMD_SPOOL)], old.command, old.commandSpool⟩

/-- A failed rewriting of the job file hides an error of the merge. -/
def getMergeSubReq (env : SubmitEnv) (old : SubmitReq) (req : ModifyReq) : Except Lsbe SubmitReq := do
  let cmd ← mergeCommand env old req
  let tempSub ← mergeSubReq env old req
  return { tempSub with
    options2 := tempSub.options2 ||| collect cmd.bits
    command := cmd.command
    commandSpool := cmd.commandSpool }

theorem bind_ok {first : Except ε α} {rest : α → Except ε β} {b : β}
    (h : (first >>= rest) = .ok b) : ∃ a, first = .ok a ∧ rest a = .ok b := by
  cases first with
  | error err => cases h
  | ok a => exact ⟨a, rfl, h⟩

theorem getMergeSubReq_ok {env : SubmitEnv} {old merged : SubmitReq} {req : ModifyReq}
    (h : getMergeSubReq env old req = .ok merged) : ∃ cmd factor,
      mergeCommand env old req = .ok cmd ∧ mergeFactor env old req.submitReq = some factor ∧
      merged = { mergeFields env factor old req with
        options2 := (mergeFields env factor old req).options2 ||| collect cmd.bits
        command := cmd.command
        commandSpool := cmd.commandSpool } := by
  obtain ⟨cmd, hc, h⟩ := bind_ok h
  obtain ⟨tempSub, ht, h⟩ := bind_ok h
  cases h
  unfold mergeSubReq at ht
  split at ht
  · cases ht
  · case h_2 factor hf =>
    cases ht
    exact ⟨cmd, factor, hc, hf, rfl⟩

structure QueueParams where
  queue : String := ""
  defaultHostSpec : Option String := none
  defProcLimit : Int := 0
  chkpnt : Bool := false -- `Q_ATTRIB_CHKPNT`
  chkpntDir : String := ""
  chkpntPeriod : Int := 0
  rerunnable : Bool := false -- `Q_ATTRIB_RERUNNABLE`
  deriving DecidableEq

/-- The checks of `checkJobParams` that read other tables and only refuse. -/
structure ParamChecks where
  (askedHosts checkResReq : SubmitReq → Option Lsbe := fun _ => none) -- `Gethostbyname_` and `chkAskedHosts`
  queues : SubmitReq → List QueueParams -- The queues that the words of the queue name, or of `defaultQueues`, name.
  /-- `queueOk` and `acceptJob`, apart from `getCpuLimit` -/
  acceptJob : QueueParams → SubmitReq → Option Lsbe := fun _ _ => none
  /-- `checkSubHost`, and the hosts and processors of the queue -/
  checkSubHost : QueueParams → SubmitReq → Option Lsbe := fun _ _ => none
  parseDepCond : SubmitReq → Option Lsbe := fun _ => none

def refuse (check : Option Lsbe) : Except Lsbe Unit :=
  match check with
  | some err => .error err
  | none => .ok ()

/-- A positive limit multiplied by the CPU factor and rounded, as `getCpuLimit` does. -/
def normalLimit (factor : Float32) (limit : Int) : Except Lsbe Int :=
  if factor ≤ 0 then .error .BAD_LIMIT
  else if Float32.ofInt limit > Float32.ofInt INFINIT_INT / factor then .error .BAD_LIMIT
  else
    let scaled := Float32.ofInt limit * factor
    .ok (if scaled < 1 then 1 else (scaled.toFloat + 0.5).toFloat32.toInt32.toInt)

def checkLimit (factor : Float32) (limit : Int) : Except Lsbe Int :=
  if 0 < limit then normalLimit factor limit else .ok limit

def defaultSpec (env : SubmitEnv) (qp : QueueParams) (subReq : SubmitReq) : String :=
  match qp.defaultHostSpec, env.defaultHostSpec with
  | some spec, _ => spec
  | none, some spec => spec
  | none, none => subReq.fromHost

def getCpuLimit (env : SubmitEnv) (qp : QueueParams) (subReq : SubmitReq) : Except Lsbe SubmitReq :=
  let cpuLimit := subReq.rLimits .CPU
  let runLimit := subReq.rLimits .RUN
  if cpuLimit ≤ 0 ∧ runLimit ≤ 0 then .ok subReq
  else
    let spec := if has subReq.options SUB_HOST_SPEC then subReq.hostSpec else defaultSpec env qp subReq
    match env.cpuFactor spec with
    | none => .error .BAD_HOST_SPEC
    | some factor => do
      let cpuLimit ← checkLimit factor cpuLimit
      let runLimit ← checkLimit factor runLimit
      return { subReq with
        rLimits := update (update subReq.rLimits .CPU cpuLimit) .RUN runLimit
        hostSpec := spec
        options := set subReq.options SUB_HOST_SPEC }

def defaultProcs (qp : QueueParams) : Int := if 0 < qp.defProcLimit then qp.defProcLimit else 1

/-- The default range of processors is the queue's. -/
def queueOk (env : SubmitEnv) (checks : ParamChecks) (qp : QueueParams) (subReq : SubmitReq) : Except Lsbe SubmitReq := do
  let subReq ← getCpuLimit env qp subReq
  let subReq := if has subReq.options2 SUB2_USE_DEF_PROCLIMIT then
    { subReq with numProcessors := defaultProcs qp, maxNumProcessors := defaultProcs qp } else subReq
  refuse (checks.acceptJob qp subReq)
  return subReq

def chooseQueue (env : SubmitEnv) (checks : ParamChecks) (subReq : SubmitReq) :
    Lsbe → List QueueParams → Except Lsbe (QueueParams × SubmitReq)
  | err, [] => .error err
  | _, qp :: rest =>
    match queueOk env checks qp subReq with
    | .ok subReq' => .ok (qp, subReq')
    | .error err => chooseQueue env checks subReq err rest

def checkUserPriority (env : SubmitEnv) (userPriority : Int) : Option Lsbe :=
  if env.maxUserPriority ≤ 0 then some .NO_JOB_PRIORITY
  else if userPriority ≤ 0 ∨ INFINIT_INT < userPriority then some .BAD_USER_PRIORITY
  else if env.maxUserPriority < userPriority ∧ !env.isAdmin then some .BAD_USER_PRIORITY
  else none

/-- `SUB_INTERACTIVE` jobs cannot be rerun, and read no file on a pseudo-terminal. -/
def checkInteractive (subReq : SubmitReq) : Option Lsbe :=
  if has subReq.options SUB_INTERACTIVE then
    if has subReq.options SUB_RERUNNABLE then some .INTERACTIVE_RERUN
    else if (has subReq.options SUB_PTY || has subReq.options SUB_PTY_SHELL) && has subReq.options SUB_IN_FILE then
      some .PTY_INFILE
    else none
  else none

def nameProject (env : SubmitEnv) (subReq : SubmitReq) : SubmitReq :=
  if subReq.projectName = "" then
    { subReq with projectName := env.getDefaultProject, options := set subReq.options SUB_PROJECT_NAME }
  else subReq

/-- With the queue it chose; `keepDepend` is the caller's exception. -/
def checkJobParams (env : SubmitEnv) (checks : ParamChecks) (keepDepend : Bool) (subReq : SubmitReq) :
    Except Lsbe (QueueParams × SubmitReq) := do
  let subReq := nameProject env subReq
  refuse (checks.askedHosts subReq)
  refuse (if subReq.termTime ≠ 0 ∧ subReq.termTime < env.now then some .BAD_TIME else none)
  refuse (checks.checkResReq subReq)
  let (qp, subReq) ← chooseQueue env checks subReq .BAD_QUEUE (checks.queues subReq)
  refuse (checks.checkSubHost qp subReq)
  refuse (checkInteractive subReq)
  let subReq := { subReq with options := set subReq.options SUB_QUEUE, queue := qp.queue }
  match checks.parseDepCond subReq with
  | some .NO_JOB => if keepDepend then return (qp, subReq) else .error .NO_JOB
  | some err => .error err
  | none =>
    refuse (if has subReq.options2 SUB2_JOB_PRIORITY then checkUserPriority env subReq.userPriority else none)
    return (qp, subReq)

section

variable {env : SubmitEnv} {checks : ParamChecks} {qp : QueueParams} {subReq subReq' : SubmitReq}

theorem chooseQueue_ok
    (h : chooseQueue env checks subReq err queues = .ok (qp, subReq')) : queueOk env checks qp subReq = .ok subReq' := by
  induction queues generalizing err with
  | nil => cases h
  | cons qp' rest ih =>
    unfold chooseQueue at h
    split at h
    · case h_1 subReq1 hok =>
      cases h
      exact hok
    · case h_2 err' hb => exact ih h

/-- The host specification that `getCpuLimit` uses. -/
def limitSpec (env : SubmitEnv) (qp : QueueParams) (subReq : SubmitReq) : String :=
  if has subReq.options SUB_HOST_SPEC then subReq.hostSpec else defaultSpec env qp subReq

def limited (subReq : SubmitReq) : Bool := decide (0 < subReq.rLimits .CPU) || decide (0 < subReq.rLimits .RUN)

/-- Limit `i` after the check. -/
def LimitChecked (env : SubmitEnv) (spec : String) (i : Rlimit) (before after : Int) : Prop :=
  if (i = .CPU ∨ i = .RUN) ∧ 0 < before then
    ∃ factor, env.cpuFactor spec = some factor ∧ normalLimit factor before = .ok after
  else after = before

theorem getCpuLimit_ok (h : getCpuLimit env qp subReq = .ok subReq') :
    subReq' = { subReq with rLimits := subReq'.rLimits, hostSpec := subReq'.hostSpec, options := subReq'.options } ∧
      subReq'.options = (if limited subReq then set subReq.options SUB_HOST_SPEC else subReq.options) ∧
      subReq'.hostSpec = (if limited subReq then limitSpec env qp subReq else subReq.hostSpec) ∧
      ∀ i, LimitChecked env (limitSpec env qp subReq) i (subReq.rLimits i) (subReq'.rLimits i) := by
  unfold getCpuLimit at h
  dsimp only at h
  by_cases hlow : subReq.rLimits .CPU ≤ 0 ∧ subReq.rLimits .RUN ≤ 0
  · rw [if_pos hlow] at h
    cases h
    have hl : limited subReq = false := by simpa [limited] using hlow
    refine ⟨rfl, by rw [hl]; rfl, by rw [hl]; rfl, fun i => ?_⟩
    unfold LimitChecked
    rw [if_neg]
    rintro ⟨rfl | rfl, hpos⟩
    · exact absurd hlow.1 (not_le.mpr hpos)
    · exact absurd hlow.2 (not_le.mpr hpos)
  · rw [if_neg hlow] at h
    have hl : limited subReq = true := by
      simp only [limited, Bool.or_eq_true, decide_eq_true_eq]
      omega
    split at h
    · cases h
    · case h_2 factor hf =>
      obtain ⟨cpuLimit, hcpu, h⟩ := bind_ok h
      obtain ⟨runLimit, hr, h⟩ := bind_ok h
      cases h
      refine ⟨rfl, by rw [hl]; rfl, by rw [hl]; rfl, fun i => ?_⟩
      have hc : ∀ i after, (i = .CPU ∨ i = .RUN) →
          checkLimit factor (subReq.rLimits i) = .ok after →
          LimitChecked env (limitSpec env qp subReq) i (subReq.rLimits i) after := by
        intro i after hi h
        unfold LimitChecked
        unfold checkLimit at h
        by_cases hpos : 0 < subReq.rLimits i
        · rw [if_pos hpos] at h
          rw [if_pos ⟨hi, hpos⟩]
          exact ⟨factor, hf, h⟩
        · rw [if_neg hpos] at h
          rw [if_neg fun hp => hpos hp.2]
          injection h with h
          exact h.symm
      by_cases hrunIdx : i = .RUN
      · subst hrunIdx
        simpa using hc .RUN runLimit (.inr rfl) hr
      · by_cases hcpuIdx : i = .CPU
        · subst hcpuIdx
          simpa using hc .CPU cpuLimit (.inl rfl) hcpu
        · unfold LimitChecked
          rw [if_neg fun hp => hp.1.elim hcpuIdx hrunIdx]
          simp [update_of_ne hrunIdx, update_of_ne hcpuIdx]

structure Checked (env : SubmitEnv) (qp : QueueParams) (before after : SubmitReq) : Prop where
  same : after = { before with
    options := after.options, projectName := after.projectName, queue := after.queue, hostSpec := after.hostSpec
    rLimits := after.rLimits, numProcessors := after.numProcessors, maxNumProcessors := after.maxNumProcessors }
  bit : ∀ i, i < 32 → after.options.getLsbD i = (before.options.getLsbD i || decide (SUB_QUEUE.pos = i) ||
    (before.projectName == "" && decide (SUB_PROJECT_NAME.pos = i)) ||
    (limited before && decide (SUB_HOST_SPEC.pos = i)))
  projectName : after.projectName = if before.projectName = "" then env.getDefaultProject else before.projectName
  queue : after.queue = qp.queue
  hostSpec : after.hostSpec = if limited before then limitSpec env qp before else before.hostSpec
  limits : ∀ i, LimitChecked env (limitSpec env qp before) i (before.rLimits i) (after.rLimits i)
  procs : (after.numProcessors, after.maxNumProcessors) =
    if has before.options2 SUB2_USE_DEF_PROCLIMIT then (defaultProcs qp, defaultProcs qp)
    else (before.numProcessors, before.maxNumProcessors)

theorem queueOk_ok (h : queueOk env checks qp subReq = .ok subReq') :
    ∃ subReq₁, getCpuLimit env qp subReq = .ok subReq₁ ∧ subReq' = if has subReq₁.options2 SUB2_USE_DEF_PROCLIMIT then
      { subReq₁ with numProcessors := defaultProcs qp, maxNumProcessors := defaultProcs qp } else subReq₁ := by
  obtain ⟨subReq₁, hl, h⟩ := bind_ok h
  obtain ⟨-, -, h⟩ := bind_ok h
  cases h
  exact ⟨subReq₁, hl, rfl⟩

theorem nameProject_bit (i : Nat) (hi : i < 32) : (nameProject env subReq).options.getLsbD i =
    (subReq.options.getLsbD i || (subReq.projectName == "" && decide (SUB_PROJECT_NAME.pos = i))) := by
  unfold nameProject
  by_cases hn : subReq.projectName = ""
  · rw [if_pos hn, set_bit, hn]
    simp only [hi, true_and, beq_self_eq_true, Bool.true_and]
  · rw [if_neg hn, beq_false_of_ne hn, Bool.false_and, Bool.or_false]

theorem nameProject_same : nameProject env subReq = { subReq with
    projectName := (nameProject env subReq).projectName, options := (nameProject env subReq).options } := by
  unfold nameProject
  split <;> rfl

theorem nameProject_limitSpec : limitSpec env qp (nameProject env subReq) = limitSpec env qp subReq := by
  have hb : has (nameProject env subReq).options SUB_HOST_SPEC = has subReq.options SUB_HOST_SPEC := by
    rw [has_eq, has_eq, nameProject_bit SUB_HOST_SPEC.pos (by decide)]
    simp only [SUB_HOST_SPEC_pos, SUB_PROJECT_NAME_pos, Nat.reduceEqDiff, decide_false, Bool.and_false, Bool.or_false]
  unfold limitSpec defaultSpec
  rw [hb, nameProject_same]

theorem Checked.of_queueOk (h : queueOk env checks qp (nameProject env subReq) = .ok subReq') :
    Checked env qp subReq { subReq' with options := set subReq'.options SUB_QUEUE, queue := qp.queue } := by
  obtain ⟨subReq1, hlimit, hpro⟩ := queueOk_ok h
  obtain ⟨hs, ho, hspec, hl⟩ := getCpuLimit_ok hlimit
  have hlim : limited (nameProject env subReq) = limited subReq := by
    unfold limited
    rw [nameProject_same]
  rw [hlim] at ho hspec
  rw [nameProject_limitSpec] at hspec hl
  have hs0 := @nameProject_same env subReq
  have ho2 : subReq1.options2 = subReq.options2 := by rw [hs, hs0]
  have hr : subReq' = { subReq1 with
      numProcessors := subReq'.numProcessors, maxNumProcessors := subReq'.maxNumProcessors } := by
    rw [hpro]
    split <;> rfl
  have hkeep0 : ∀ {β : Type} (f : SubmitReq → β), (∀ s o p, f { s with options := o, projectName := p } = f s) →
      f (nameProject env subReq) = f subReq := fun f hf => by rw [hs0]; exact hf _ _ _
  refine ⟨?_, fun i hi => ?_, ?_, rfl, ?_, fun i => ?_, ?_⟩
  · rw [hr, hs, hs0]
  · rw [set_bit, hr]
    rw [ho]
    cases limited subReq with
    | false => 
      simp only [Bool.false_eq_true, if_false, nameProject_bit i hi, hi, true_and, Bool.false_and, Bool.or_false]
      ac_rfl
    | true =>
      simp only [if_true, set_bit, nameProject_bit i hi, hi, true_and, Bool.true_and]
      ac_rfl
  · rw [hr, hs]
    unfold nameProject
    split <;> rfl
  · rw [hr]
    rw [hspec]
    exact congrArg _ (hkeep0 SubmitReq.hostSpec fun _ _ _ => rfl)
  · rw [hr, ← hkeep0 (fun s => s.rLimits i) fun _ _ _ => rfl]
    exact hl i
  · rw [hpro, ho2]
    split
    · rfl
    · rw [hs, hs0]

theorem checkJobParams_ok {keepDepend : Bool} (h : checkJobParams env checks keepDepend subReq = .ok (qp, subReq')) :
    Checked env qp subReq subReq' := by
  obtain ⟨-, -, h⟩ := bind_ok h
  obtain ⟨-, -, h⟩ := bind_ok h
  obtain ⟨-, -, h⟩ := bind_ok h
  obtain ⟨⟨qp1, subReq1⟩, hq, h⟩ := bind_ok h
  obtain ⟨-, -, h⟩ := bind_ok h
  obtain ⟨-, -, h⟩ := bind_ok h
  have hc := Checked.of_queueOk (chooseQueue_ok hq)
  dsimp only at h
  split at h
  · split at h
    · cases h
      exact hc
    · cases h
  · cases h
  · obtain ⟨-, -, h⟩ := bind_ok h
    cases h
    exact hc

end

/-- `copyJobBill`. `jobId` is the text of a new job's id. -/
def copyJobBill (now : Int) (subReq : SubmitReq) (jobId : Option String) : SubmitReq :=
  let outFile := if has subReq.options SUB_OUT_FILE then subReq.outFile else "/dev/null"
  let spool := has subReq.options2 SUB2_IN_FILE_SPOOL
  { subReq with
    submitTime := if jobId.isSome then now else subReq.submitTime
    jobFile := match jobId with
      | none => subReq.jobFile
      | some id =>
        if subReq.jobFile = "" then toString now ++ "." ++ id
        else if has subReq.options SUB_RESTART then subReq.jobFile ++ "." ++ id
        else subReq.jobFile
    loginShell := if has subReq.options SUB_LOGIN_SHELL then subReq.loginShell else ""
    mailUser := if has subReq.options SUB_MAIL_USER then subReq.mailUser else ""
    inFile := if spool || has subReq.options SUB_IN_FILE then subReq.inFile else "/dev/null"
    outFile
    errFile := if has subReq.options SUB_ERR_FILE then subReq.errFile
      else if has subReq.options SUB_OUT_FILE then outFile else "/dev/null"
    inFileSpool := if spool then subReq.inFileSpool else "/dev/null"
    commandSpool := if has subReq.options2 SUB2_JOB_CMD_SPOOL then subReq.commandSpool else ""
    hostSpec := if has subReq.options SUB_HOST_SPEC then subReq.hostSpec else ""
    chkpntDir := if has subReq.options SUB_CHKPNT_DIR then subReq.chkpntDir else "" }

theorem copyJobBill_copy (now : Int) (subReq : SubmitReq) :
    copyJobBill now (copyJobBill now subReq none) none = copyJobBill now subReq none := by
  unfold copyJobBill
  grind

end OpenLava

import OpenLava.Log.JobNew

/-!
The other records of `lsb.log.c`, each with its writer and its reader. A writer is the list of the pieces it prints;
a reader moves over the line piece by piece, and refuses it where a string does not fit or is missing.
-/

namespace OpenLava.Log

open List Text OptionBits Scan

def MAXLSFNAMELEN : Nat := 40

def ended {F : Type} (pieces : List (Piece F)) : Written F := ⟨pieces, ['\n']⟩

structure JobStartAcceptLog where
  (jobId jobPid jobPGid idx : Int)

structure JobExecuteLog where
  (jobId execUid : Int)
  (execHome execCwd : List Char)
  jobPGid : Int
  execUsername : List Char
  (jobPid idx : Int)

structure SbdJobStatusLog where
  (jobId jStatus reasons subreasons actPid actValue actPeriod actFlags actStatus actReasons actSubReasons idx : Int)

structure JobSwitchLog where
  (userId jobId : Int)
  queue : List Char
  idx : Int
  userName : List Char

structure JobMoveLog where
  (userId jobId position base idx : Int)
  userName : List Char

structure ChkpntLog where
  (jobId period pid ok flags idx : Int)

structure JobRequeueLog where
  (jobId idx : Int)

structure JobCleanLog where
  (jobId idx : Int)

structure SigactLog where
  (jobId period pid jStatus reasons flags : Int)
  signalSymbol : List Char
  (actStatus idx : Int)

structure MigLog where
  jobId : Int
  askedHosts : List (List Char)
  (userId idx : Int)
  userName : List Char

structure SignalLog where
  (userId jobId : Int)
  signalSymbol : List Char
  (runCount idx : Int)
  userName : List Char

structure QueueCtrlLog where
  opCode : Int
  queue : List Char
  userId : Int
  userName : List Char

structure HostCtrlLog where
  opCode : Int
  host : List Char
  userId : Int
  userName : List Char

structure MbdStartLog where
  (master cluster : List Char)
  (numHosts numQueues : Int)

structure MbdDieLog where
  master : List Char
  (numRemoveJobs exitCode : Int)

structure UnfulfillLog where
  (jobId notSwitched sig sig1 sig1Flags chkPeriod notModified idx : Int)

structure LoadIndexLog where
  name : List (List Char)

/-- Also the record of `JOB_MSG_ACK`. -/
structure JobMsgLog where
  (usrId jobId msgId type : Int)
  (src dest msg : List Char)
  idx : Int

structure JobForceRequestLog where
  userId : Int
  execHosts : List (List Char)
  (jobId idx options : Int)
  userName : List Char

structure JobAttrSetLog where
  (jobId idx uid port : Int)

structure LogSwitchLog where
  lastJobId : Int

section

variable {F : Type}

def writeJobStartAccept (l : JobStartAcceptLog) : Written F :=
  ended [.int l.jobId, .int l.jobPid, .int l.jobPGid, .int l.idx]

def writeJobExecute (l : JobExecuteLog) : Written F :=
  ended [.int l.jobId, .int l.execUid, .int l.jobPGid, .qstr l.execCwd, .qstr l.execHome, .qstr l.execUsername,
    .int l.jobPid, .int l.idx]

def writeSbdJobStatus (l : SbdJobStatusLog) : Written F where
  pieces := [.int l.jobId, .int l.jStatus, .int l.reasons, .int l.subreasons, .int l.actPid, .int l.actValue,
    .int (toInt l.actPeriod), .int l.actFlags, .int l.actStatus, .int l.actReasons, .int l.actSubReasons, .int l.idx]
  ending := []

def writeJobSwitch (l : JobSwitchLog) : Written F :=
  ended [.int l.userId, .int l.jobId, .qstr l.queue, .int l.idx, .qstr l.userName]

def writeJobMove (l : JobMoveLog) : Written F :=
  ended [.int l.userId, .int l.jobId, .int l.position, .int l.base, .int l.idx, .qstr l.userName]

def writeChkpnt (l : ChkpntLog) : Written F :=
  ended [.int l.jobId, .int (toInt l.period), .int l.pid, .int l.ok, .int l.flags, .int l.idx]

def writeJobRqueue (l : JobRequeueLog) : Written F := ended [.int l.jobId, .int l.idx]

def writeJobClean (l : JobCleanLog) : Written F := ended [.int l.jobId, .int l.idx]

def writeJobSigAct (l : SigactLog) : Written F :=
  ended [.int l.jobId, .int (toInt l.period), .int l.pid, .int l.jStatus, .int l.reasons, .int l.flags,
    .int l.actStatus, .qstr l.signalSymbol, .int l.idx]

def writeMig (l : MigLog) : Written F :=
  ended (flatten [[.int l.jobId, .int l.askedHosts.length], qstrs l.askedHosts,
    [.int l.userId, .int l.idx, .qstr l.userName]])

def writeJobSignal (l : SignalLog) : Written F :=
  ended [.int l.jobId, .int l.userId, .int l.runCount, .qstr l.signalSymbol, .int l.idx, .qstr l.userName]

def writeQueueCtrl (l : QueueCtrlLog) : Written F :=
  ended [.int l.opCode, .qstr l.queue, .int l.userId, .qstr l.userName]

def writeHostCtrl (l : HostCtrlLog) : Written F :=
  ended [.int l.opCode, .qstr l.host, .int l.userId, .qstr l.userName]

def writeMbdStart (l : MbdStartLog) : Written F :=
  ended [.qstr l.master, .qstr l.cluster, .int l.numHosts, .int l.numQueues]

def writeMbdDie (l : MbdDieLog) : Written F := ended [.qstr l.master, .int l.numRemoveJobs, .int l.exitCode]

def writeUnfulfill (l : UnfulfillLog) : Written F :=
  ended [.int l.jobId, .int l.notSwitched, .int l.sig, .int l.sig1, .int l.sig1Flags, .int (toInt l.chkPeriod),
    .int l.notModified, .int l.idx]

def writeLoadIndex (l : LoadIndexLog) : Written F := ended (flatten [[.int l.name.length], qstrs l.name])

/-- Also `writeJobMsgAck`. -/
def writeJobMsg (l : JobMsgLog) : Written F :=
  ended [.int l.usrId, .int l.jobId, .int l.msgId, .int l.type, .qstr l.src, .qstr l.dest, .qstr l.msg, .int l.idx]

def writeJobForce (l : JobForceRequestLog) : Written F :=
  ended (flatten [[.int l.jobId, .int l.userId, .int l.idx, .int l.options, .int l.execHosts.length, .nothing],
    qstrs l.execHosts, [.qstr l.userName]])

def writeJobAttrSet (l : JobAttrSetLog) : Written F :=
  ⟨[.int l.jobId, .int l.idx, .int l.uid, .int l.port], [' ', '\n']⟩

def writeLogSwitch (l : LogSwitchLog) : Written F := ⟨[.int l.lastJobId], [' ', '\n']⟩

end

section

def readJobStartAccept : Scan JobStartAcceptLog := do
  let jobId ← int
  let jobPid ← int
  let jobPGid ← int
  skip
  let idx ← int1
  return { jobId, jobPid, jobPGid, idx }

def readJobExecute : Scan JobExecuteLog := do
  let jobId ← int
  let execUid ← int
  let jobPGid ← int
  skip
  let execCwd ← saveQStr
  let execHome ← saveQStr
  let execUsername ← saveQStr
  let jobPid ← int1
  let idx ← int
  return { jobId, execUid, execHome, execCwd, jobPGid, execUsername, jobPid, idx }

def readSbdJobStatus : Scan SbdJobStatusLog := do
  let jobId ← int
  let jStatus ← int
  let reasons ← int
  let subreasons ← int
  let actPid ← int
  let actValue ← int
  let actPeriod ← int
  let actFlags ← int
  let actStatus ← int
  let actReasons ← int
  let actSubReasons ← int
  let idx ← int
  skip
  return {
    jobId := jobId, jStatus, reasons, subreasons, actPid, actValue, actPeriod, actFlags, actStatus, actReasons,
    actSubReasons, idx }

def readJobSwitch : Scan JobSwitchLog := do
  let userId ← int
  let jobId ← int
  skip
  let queue ← copyQStr MAX_LSB_NAME_LEN true
  let idx ← int1
  let userName ← copyQStr MAX_LSB_NAME_LEN true
  return { userId, jobId, queue, idx, userName }

def readJobMove : Scan JobMoveLog := do
  let userId ← int
  let jobId ← int
  let position ← int
  let base ← int
  skip
  let idx ← int1
  let userName ← copyQStr MAX_LSB_NAME_LEN true
  return { userId, jobId, position, base, idx, userName }

def readChkpnt : Scan ChkpntLog := do
  let jobId ← int
  let period ← int
  let pid ← int
  let ok ← int
  let flags ← int
  skip
  let idx ← int
  return { jobId, period, pid, ok, flags, idx }

def readJobRequeue : Scan JobRequeueLog := do
  let jobId ← int1
  let idx ← int1
  return { jobId, idx }

def readJobClean : Scan JobCleanLog := do
  let jobId ← int
  let idx ← int
  skip
  return { jobId, idx }

def readJobSigAct : Scan SigactLog := do
  let jobId ← int
  let period ← int
  let pid ← int
  let jStatus ← int
  let reasons ← int
  let flags ← int
  let actStatus ← int
  skip
  let signalSymbol ← stripInto MAXLINELEN
  let idx ← int
  return { jobId, period, pid, jStatus, reasons, flags, signalSymbol, actStatus, idx }

def readMig : Scan MigLog := do
  let jobId ← int
  let numAskedHosts ← int
  skip
  let askedHosts ← times numAskedHosts.toNat (stripInto MAXHOSTNAMELEN)
  let userId ← int1
  let idx ← int
  let userName ← copyQStr MAX_LSB_NAME_LEN true
  return { jobId, askedHosts, userId, idx, userName }

def readJobSignal : Scan SignalLog := do
  let jobId ← int
  let userId ← int
  let runCount ← int
  skip
  let signalSymbol ← stripInto MAXLINELEN
  let idx ← int1
  let userName ← copyQStr MAX_LSB_NAME_LEN true
  return { userId, jobId, signalSymbol, runCount, idx, userName }

/-- `readQueueCtrl` and `readHostCtrl` differ in the name they read. -/
def readCtrl (maxLen : Nat) (nonNil : Bool) : Scan (Int × List Char × Int × List Char) := do
  let opCode ← int1
  let name ← copyQStr maxLen nonNil
  let userId ← int
  let userName ← copyQStr MAX_LSB_NAME_LEN true
  return (opCode, name, userId, userName)

def readQueueCtrl : Scan QueueCtrlLog := do
  let (opCode, queue, userId, userName) ← readCtrl MAX_LSB_NAME_LEN true
  return { opCode, queue, userId, userName }

def readHostCtrl : Scan HostCtrlLog := do
  let (opCode, host, userId, userName) ← readCtrl MAXHOSTNAMELEN false
  return { opCode, host, userId, userName }

def readMbdStart : Scan MbdStartLog := do
  let master ← copyQStr MAXHOSTNAMELEN false
  let cluster ← copyQStr MAXLSFNAMELEN false
  let numHosts ← int
  let numQueues ← int
  return { master, cluster, numHosts, numQueues }

def readMbdDie : Scan MbdDieLog := do
  let master ← copyQStr MAXHOSTNAMELEN false
  let numRemoveJobs ← int
  let exitCode ← int
  return { master, numRemoveJobs, exitCode }

def readUnfulfill : Scan UnfulfillLog := do
  let jobId ← int
  let notSwitched ← int
  let sig ← int
  let sig1 ← int
  let sig1Flags ← int
  let chkPeriod ← int
  let notModified ← int
  skip
  let idx ← int1
  return { jobId, notSwitched, sig, sig1, sig1Flags, chkPeriod, notModified, idx }

def readLoadIndex : Scan LoadIndexLog := do
  let name ← counted saveQStr
  return { name }

/-- Also `readJobMsgAck`. -/
def readJobMsg : Scan JobMsgLog := do
  let usrId ← int
  let jobId ← int
  let msgId ← int
  let type ← int
  skip
  let src ← stripInto MAXLINELEN
  let dest ← stripInto MAXLINELEN
  let msg ← stripInto MAXLINELEN
  let idx ← int1
  return { usrId, jobId, msgId, type, src, dest, msg, idx }

def readJobForce : Scan JobForceRequestLog := do
  let jobId ← int
  let userId ← int
  let idx ← int
  let options ← int
  let numExecHosts ← int
  skip
  let execHosts ← times numExecHosts.toNat (stripInto MAXLINELEN)
  let userName ← copyQStr MAX_LSB_NAME_LEN true
  return { userId, execHosts, jobId, idx, options, userName }

def readJobAttrSet : Scan JobAttrSetLog := do
  let jobId ← int
  let idx ← int
  let uid ← int
  let port ← int
  return { jobId, idx, uid, port }

def readLogSwitch : Scan LogSwitchLog := do
  let lastJobId ← int
  return { lastJobId }

end

/-- The members of `struct lsfRusage` in their order: two times, and seventeen counts. -/
abbrev LsfRusage (F : Type) := Fin 19 → F

structure JobStartLog (F : Type) where
  (jobId jStatus jobPid jobPGid : Int)
  hostFactor : F
  execHosts : List (List Char)
  (queuePreCmd queuePostCmd : List Char)
  (jFlags idx : Int)

structure JobStatusLog (F : Type) where
  (jobId jStatus reason subreasons : Int)
  cpuTime : F
  (endTime ru : Int)
  lsfRusage : LsfRusage F
  (exitStatus idx : Int)

structure JobFinishLog (F : Type) where
  (jobId userId : Int)
  userName : List Char
  (options numProcessors jStatus submitTime beginTime termTime startTime endTime : Int)
  (queue resReq fromHost cwd inFile outFile errFile inFileSpool commandSpool jobFile : List Char)
  askedHosts : List (List Char)
  hostFactor : F
  execHosts : List (List Char)
  (jobName command : List Char)
  lsfRusage : LsfRusage F
  (dependCond preExecCmd mailUser projectName : List Char)
  (exitStatus maxNumProcessors : Int)
  loginShell : List Char
  (idx maxRMem maxRSwap : Int)

section

variable {F : Type} (ft : FloatText F)

def lsfRu2Str (ru : LsfRusage F) : List (Piece F) :=
  List.ofFn fun i => .float 1 (if i.val < 2 then 6 else 0) (ru i)

def str2lsfRu : Scan (LsfRusage F) := do
  let members ← times 19 (float ft)
  return fun i => members.getD i ft.zero

def writeJobStart (l : JobStartLog F) : Written F :=
  ended (flatten [[.int l.jobId, .int l.jStatus, .int l.jobPid, .int l.jobPGid, .float 3 1 l.hostFactor,
    .int l.execHosts.length], qstrs l.execHosts, [.qstr l.queuePreCmd, .qstr l.queuePostCmd, .int l.jFlags, .int l.idx]])

def readJobStart : Scan (JobStartLog F) := do
  let jobId ← int
  let jStatus ← int
  let jobPid ← int
  let jobPGid ← int
  let hostFactor ← float ft
  let numExHosts ← int
  skip
  if numExHosts = 0 then throw .eventFormat
  let execHosts ← times numExHosts.toNat (stripInto MAXLINELEN)
  let queuePreCmd ← saveQStr
  let queuePostCmd ← saveQStr
  let jFlags ← int1
  let idx ← int
  return { jobId, jStatus, jobPid, jobPGid, hostFactor, execHosts, queuePreCmd, queuePostCmd, jFlags, idx }

def writeJobStatus (l : JobStatusLog F) : Written F :=
  ended (flatten [[.int l.jobId, .int l.jStatus, .int l.reason, .int l.subreasons, .float 4 4 l.cpuTime,
    .int (toInt l.endTime), .int l.ru], shown (l.ru ≠ 0) (lsfRu2Str l.lsfRusage), [.int l.exitStatus, .int l.idx]])

def readRusage (ru : Int) : Scan (LsfRusage F) :=
  given (ru ≠ 0) (fun _ => ft.zero) do
    let lsfRusage ← str2lsfRu ft
    skip
    return lsfRusage

def readJobStatus : Scan (JobStatusLog F) := do
  let jobId ← int
  let jStatus ← int
  let reason ← int
  let subreasons ← int
  let cpuTime ← float ft
  let endTime ← int
  let ru ← int
  skip
  let lsfRusage ← readRusage ft ru
  let exitStatus ← int1
  let idx ← int
  return { jobId, jStatus, reason, subreasons, cpuTime, endTime, ru, lsfRusage, exitStatus, idx }

def writeJobFinish (l : JobFinishLog F) : Written F :=
  ended (flatten [
    [.int l.jobId, .int l.userId, .int l.options, .int l.numProcessors, .int (toInt l.submitTime),
      .int (toInt l.beginTime), .int (toInt l.termTime), .int (toInt l.startTime), .qstr l.userName, .qstr l.queue,
      .qstr l.resReq, .qstr l.dependCond, .qstr l.preExecCmd, .qstr l.fromHost, .qstr l.cwd, .qstr l.inFile,
      .qstr l.outFile, .qstr l.errFile, .qstr l.jobFile, .int l.askedHosts.length],
    qstrs l.askedHosts,
    [.int l.execHosts.length],
    qstrs l.execHosts,
    [.int l.jStatus, .float 3 1 l.hostFactor, .qstr l.jobName, .qstr l.command],
    lsfRu2Str l.lsfRusage,
    [.qstr l.mailUser, .qstr l.projectName, .int l.exitStatus, .int l.maxNumProcessors, .qstr l.loginShell, .int l.idx,
      .int l.maxRMem, .int l.maxRSwap, .qstr l.inFileSpool, .qstr l.commandSpool]])

def readJobFinish (eventTime : Int) : Scan (JobFinishLog F) := do
  let jobId ← int
  let userId ← int
  let options ← int
  let numProcessors ← int
  let submitTime ← int
  let beginTime ← int
  let termTime ← int
  let startTime ← int
  skip
  let userName ← copyQStr MAX_LSB_NAME_LEN true
  let queue ← copyQStr MAX_LSB_NAME_LEN true
  let resReq ← saveQStr
  let dependCond ← saveQStr
  let preExecCmd ← saveQStr
  let fromHost ← copyQStr MAXHOSTNAMELEN true
  let cwd ← copyQStr MAXFILENAMELEN false
  let inFile ← copyQStr MAXFILENAMELEN false
  let outFile ← copyQStr MAXFILENAMELEN false
  let errFile ← copyQStr MAXFILENAMELEN false
  let jobFile ← copyQStr MAXFILENAMELEN true
  let askedHosts ← counted (stripInto MAXLINELEN)
  let execHosts ← counted (stripInto MAXLINELEN)
  let jStatus ← int
  let hostFactor ← float ft
  skip
  let jobName ← copyQStr MAX_CMD_DESC_LEN false
  let command ← copyQStr MAX_CMD_DESC_LEN false
  let lsfRusage ← str2lsfRu ft
  skip
  let mailUser ← saveQStr
  let projectName ← saveQStr
  let exitStatus ← int1
  let maxNumProcessors ← int1
  let loginShell ← saveQStr
  let idx ← int1
  let maxRMem ← int
  let maxRSwap ← int
  skip
  let inFileSpool ← copyQStr MAXFILENAMELEN false
  let commandSpool ← copyQStr MAXFILENAMELEN false
  return {
    jobId := jobId, userId, userName, options, numProcessors, jStatus, submitTime, beginTime, termTime, startTime,
    endTime := eventTime, queue, resReq, fromHost, cwd, inFile, outFile, errFile, inFileSpool, commandSpool, jobFile,
    askedHosts, hostFactor, execHosts, jobName, command, lsfRusage, dependCond, preExecCmd, mailUser, projectName,
    exitStatus, maxNumProcessors, loginShell, idx, maxRMem, maxRSwap }

end

structure JobModLog where
  jobIdStr : List Char
  (options options2 delOptions delOptions2 : BitVec 32)
  userId : Int
  userName : List Char
  (submitTime umask numProcessors beginTime termTime sigValue restartPid : Int)
  (jobName queue : List Char)
  askedHosts : List (List Char)
  resReq : List Char
  rLimits : Fin LSF_RLIM_NLIMITS → Int
  (hostSpec dependCond subHomeDir inFile outFile errFile command inFileSpool commandSpool : List Char)
  chkpntPeriod : Int
  chkpntDir : List Char
  xf : List XFile
  (jobFile fromHost cwd preExecCmd mailUser projectName : List Char)
  (niosPort maxNumProcessors : Int)
  (loginShell schedHostType : List Char)
  userPriority : Int

section

variable {F : Type}

def optStr (c : Bool) (str : List Char) : List (Piece F) := shown c [.qstr str]

def JobModLog.hasInFile (l : JobModLog) : Bool := has l.options SUB_IN_FILE || has l.options2 SUB2_IN_FILE_SPOOL

/-- Of the options, only the fields that are set are printed. -/
def writeJobMod (l : JobModLog) : Written F :=
  ended (flatten [
    [.qstr l.jobIdStr, .int l.options.toInt, .int l.options2.toInt, .int l.delOptions.toInt, .int l.userId,
      .qstr l.userName, .int l.submitTime, .int l.umask, .int l.numProcessors, .int l.beginTime, .int l.termTime,
      .int l.sigValue, .int l.restartPid],
    optStr (has l.options SUB_JOB_NAME) l.jobName,
    optStr (has l.options SUB_QUEUE) l.queue,
    shown (has l.options SUB_HOST) (.int l.askedHosts.length :: qstrs l.askedHosts),
    optStr (has l.options SUB_RES_REQ) l.resReq,
    ints (List.ofFn l.rLimits),
    optStr (has l.options SUB_HOST_SPEC) l.hostSpec,
    shown (has l.options SUB_DEPEND_COND) [.stripped l.dependCond],
    [.qstr l.subHomeDir],
    optStr l.hasInFile l.inFile,
    optStr (has l.options SUB_OUT_FILE) l.outFile,
    optStr (has l.options SUB_ERR_FILE) l.errFile,
    optStr (has l.options2 SUB2_MODIFY_CMD) l.command,
    shown (has l.options SUB_CHKPNT_PERIOD) [.int l.chkpntPeriod],
    optStr (has l.options SUB_CHKPNT_DIR) l.chkpntDir,
    shown (has l.options SUB_OTHER_FILES) (.int l.xf.length :: l.xf.flatMap XFile.pieces),
    [.qstr l.jobFile, .qstr l.fromHost, .qstr l.cwd],
    shown (has l.options SUB_PRE_EXEC) [.stripped l.preExecCmd],
    optStr (has l.options SUB_MAIL_USER) l.mailUser,
    optStr (has l.options SUB_PROJECT_NAME) l.projectName,
    [.int l.niosPort, .int l.maxNumProcessors],
    optStr (has l.options SUB_LOGIN_SHELL) l.loginShell,
    [.qstr l.schedHostType, .int l.delOptions2.toInt],
    optStr (has l.options2 SUB2_IN_FILE_SPOOL) l.inFileSpool,
    optStr (has l.options2 SUB2_JOB_CMD_SPOOL) l.commandSpool,
    shown (has l.options2 SUB2_JOB_PRIORITY) [.int l.userPriority]])

def readJobMod : Scan JobModLog := do
  let jobIdStr ← saveQStr
  let word ← int
  let word2 ← int
  let delWord ← int
  let userId ← int
  skip
  let options := BitVec.ofInt 32 word
  let options2 := BitVec.ofInt 32 word2
  let userName ← saveQStr
  let submitTime ← int
  let umask ← int
  let numProcessors ← int
  let beginTime ← int
  let termTime ← int
  let sigValue ← int
  let restartPid ← int
  skip
  let jobName ← given (has options SUB_JOB_NAME) [] saveQStr
  let queue ← given (has options SUB_QUEUE) [] saveQStr
  let askedHosts ← given (has options SUB_HOST) [] (counted saveQStr)
  let resReq ← given (has options SUB_RES_REQ) [] saveQStr
  let rLimits ← times LSF_RLIM_NLIMITS int1
  let hostSpec ← given (has options SUB_HOST_SPEC) [] saveQStr
  let dependCond ← given (has options SUB_DEPEND_COND) [] saveQStr
  let subHomeDir ← saveQStr
  let inFile ← given (has options SUB_IN_FILE || has options2 SUB2_IN_FILE_SPOOL) [] saveQStr
  let outFile ← given (has options SUB_OUT_FILE) [] saveQStr
  let errFile ← given (has options SUB_ERR_FILE) [] saveQStr
  let command ← given (has options2 SUB2_MODIFY_CMD) [] saveQStr
  let chkpntPeriod ← given (has options SUB_CHKPNT_PERIOD) 0 int1
  let chkpntDir ← given (has options SUB_CHKPNT_DIR) [] saveQStr
  let xf ← given (has options SUB_OTHER_FILES) [] (counted readXFile)
  let jobFile ← saveQStr
  let fromHost ← saveQStr
  let cwd ← saveQStr
  let preExecCmd ← given (has options SUB_PRE_EXEC) [] saveQStr
  let mailUser ← given (has options SUB_MAIL_USER) [] saveQStr
  let projectName ← given (has options SUB_PROJECT_NAME) [] saveQStr
  let niosPort ← int
  let maxNumProcessors ← int
  skip
  let loginShell ← given (has options SUB_LOGIN_SHELL) [] saveQStr
  let schedHostType ← saveQStr
  let delWord2 ← int1
  let inFileSpool ← given (has options2 SUB2_IN_FILE_SPOOL) [] saveQStr
  let commandSpool ← given (has options2 SUB2_JOB_CMD_SPOOL) [] saveQStr
  let userPriority ← given (has options2 SUB2_JOB_PRIORITY) 0 int1
  return {
    jobIdStr, options, options2, delOptions := BitVec.ofInt 32 delWord, delOptions2 := BitVec.ofInt 32 delWord2,
    userId, userName, submitTime, umask, numProcessors, beginTime, termTime, sigValue, restartPid, jobName, queue,
    askedHosts, resReq, rLimits := fun i => rLimits.getD i 0, hostSpec, dependCond, subHomeDir, inFile, outFile,
    errFile, command, inFileSpool, commandSpool, chkpntPeriod, chkpntDir, xf, jobFile, fromHost, cwd, preExecCmd,
    mailUser, projectName, niosPort, maxNumProcessors, loginShell, schedHostType, userPriority }

end

section

variable {F : Type} (ft : FloatText F)

/-- The reader takes the line that `getNextLine_` leaves of the pieces. -/
def Reads {α : Type} (scan : Scan α) (written : Written F) : Prop :=
  ∃ y, scan.run (line ft (written.pieces.map .seen)) = .ok y

end

end OpenLava.Log

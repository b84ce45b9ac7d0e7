import Mathlib.Data.List.OfFn
import OpenLava.Log.Scan
import OpenLava.Mbd.Submission

/-!
The `JOB_NEW` record of `lsb.log.c`: `writeJobNew` prints it, `readJobNew` reads it back from the line. The two agree
on the order of the fields. They do not agree on the names of the transferred files, which are printed without
doubling their quotes, on the lengths of the job name and the command, and on the strings that may be empty.
-/

namespace OpenLava.Log

open List Text OptionBits Scan

def MAX_LSB_NAME_LEN : Nat := 60
def MAX_CMD_DESC_LEN : Nat := 256
def MAXFILENAMELEN : Nat := 256
def MAXLINELEN : Nat := 512
def MAXHOSTNAMELEN : Nat := 64
def MAXPATHLEN : Nat := 4096
def LSF_RLIM_NLIMITS : Nat := 11

/-- The cast `(int)`. -/
def toInt (i : Int) : Int := i.bmod (2 ^ 32)

structure XFile where
  (subFn execFn : List Char)
  options : Int
  deriving DecidableEq

@[ext] structure JobNewLog (F : Type) where
  (jobId userId : Int)
  userName : List Char
  (options options2 : BitVec 32)
  (numProcessors submitTime beginTime termTime sigValue chkpntPeriod restartPid : Int)
  rLimits : Fin LSF_RLIM_NLIMITS → Int
  hostSpec : List Char
  hostFactor : F
  umask : Int
  (queue resReq fromHost cwd chkpntDir inFile outFile errFile inFileSpool commandSpool jobSpoolDir subHomeDir
    jobFile : List Char)
  askedHosts : List (List Char)
  (dependCond jobName command : List Char)
  xf : List XFile
  (preExecCmd mailUser projectName : List Char)
  (niosPort maxNumProcessors : Int)
  (schedHostType loginShell : List Char)
  (idx userPriority : Int)

/-- The limits `convertRLimit` converts. -/
def isByteLimit (i : Fin LSF_RLIM_NLIMITS) : Bool := i.val ∈ [1, 2, 3, 4, 5, 8]

/-- The product is an `int`, and wraps. -/
def convertRLimit (toKb : Bool) (limits : Fin LSF_RLIM_NLIMITS → Int) : Fin LSF_RLIM_NLIMITS → Int := fun i =>
  if isByteLimit i ∧ 0 < limits i then
    if toKb then limits i / 1024 else toInt (limits i * 1024)
  else limits i

section

variable {F : Type}

def XFile.pieces (x : XFile) : List (Piece F) := [.raw x.subFn, .raw x.execFn, .int x.options]

def JobNewLog.loggedLimits (l : JobNewLog F) : Fin LSF_RLIM_NLIMITS → Int :=
  if has l.options SUB_RLIMIT_UNIT_IS_KB then l.rLimits else convertRLimit false l.rLimits

/-- `writeJobNew` up to the number of files. -/
def JobNewLog.head (l : JobNewLog F) : List (Piece F) := flatten [
  [.int l.jobId, .int l.userId, .int l.options.toInt, .int l.numProcessors, .int (toInt l.submitTime),
    .int (toInt l.beginTime), .int (toInt l.termTime), .int l.sigValue, .int l.chkpntPeriod, .int l.restartPid,
    .qstr l.userName],
  ints (List.ofFn l.loggedLimits),
  [.qstr l.hostSpec, .float 6 2 l.hostFactor, .int l.umask, .qstr l.queue, .stripped l.resReq, .qstr l.fromHost,
    .qstr l.cwd, .qstr l.chkpntDir, .qstr l.inFile, .qstr l.outFile, .qstr l.errFile, .qstr l.subHomeDir,
    .qstr l.jobFile, .int l.askedHosts.length],
  qstrs l.askedHosts,
  [.stripped l.dependCond, .stripped l.preExecCmd, .qstr l.jobName, .stripped l.command]]

/-- `writeJobNew` behind the files. -/
def JobNewLog.tail (l : JobNewLog F) : List (Piece F) := flatten [
  [.stripped l.mailUser, .qstr l.projectName],
  shown (has l.options SUB_INTERACTIVE) [.int l.niosPort],
  [.int l.maxNumProcessors, .qstr l.schedHostType, .qstr l.loginShell, .int l.options2.toInt, .int l.idx],
  shown (has l.options2 SUB2_BSUB_BLOCK) [.int l.niosPort],
  [.qstr l.inFileSpool, .qstr l.commandSpool, .qstr l.jobSpoolDir, .int l.userPriority]]

def writeJobNew (l : JobNewLog F) : Written F where
  pieces := flatten [l.head, [.int l.xf.length], l.xf.flatMap XFile.pieces, l.tail]
  ending := ['\n']

end

section

variable {F : Type} (ft : FloatText F)

def counted {α : Type} (scan : Scan α) : Scan (List α) := do
  let n ← int1
  times n.toNat scan

def readXFile : Scan XFile := do
  let subFn ← copyQStr MAXFILENAMELEN false
  let execFn ← copyQStr MAXFILENAMELEN false
  let options ← int1
  return { subFn, execFn, options }

/-- `readJobNew` up to the number of files; what is not yet read is 0. -/
def readJobNewHead : Scan (JobNewLog F) := do
  let jobId ← int
  let userId ← int
  let options ← int
  let numProcessors ← int
  let tmpSubmit ← int
  let tmpBegin ← int
  let tmpTerm ← int
  let sigValue ← int
  let chkpntPeriod ← int
  let restartPid ← int
  skip
  let userName ← copyQStr MAX_LSB_NAME_LEN true
  let rLimits ← times LSF_RLIM_NLIMITS int1
  let hostSpec ← copyQStr MAXHOSTNAMELEN false
  let hostFactor ← float ft
  let umask ← int
  skip
  let queue ← copyQStr MAX_LSB_NAME_LEN true
  let resReq ← saveQStr
  let fromHost ← copyQStr MAXHOSTNAMELEN true
  let cwd ← copyQStr MAXFILENAMELEN false
  let chkpntDir ← copyQStr MAXFILENAMELEN false
  let inFile ← copyQStr MAXFILENAMELEN false
  let outFile ← copyQStr MAXFILENAMELEN false
  let errFile ← copyQStr MAXFILENAMELEN false
  let subHomeDir ← copyQStr MAXFILENAMELEN false
  let jobFile ← copyQStr MAXFILENAMELEN true
  let askedHosts ← counted (stripInto MAXLINELEN)
  let dependCond ← saveQStr
  let preExecCmd ← saveQStr
  let jobName ← copyQStr MAX_CMD_DESC_LEN false
  let command ← copyQStr MAX_CMD_DESC_LEN false
  return {
    jobId, userId, userName, options := BitVec.ofInt 32 options, options2 := 0, numProcessors,
    submitTime := tmpSubmit, beginTime := tmpBegin, termTime := tmpTerm, sigValue, chkpntPeriod, restartPid,
    rLimits := fun i => rLimits.getD i 0, hostSpec, hostFactor, umask, queue, resReq, fromHost, cwd, chkpntDir,
    inFile, outFile, errFile, inFileSpool := [], commandSpool := [], jobSpoolDir := [], subHomeDir, jobFile,
    askedHosts, dependCond, jobName, command, xf := [], preExecCmd, mailUser := [], projectName := [],
    niosPort := 0, maxNumProcessors := 0, schedHostType := [], loginShell := [], idx := 0, userPriority := 0 }

/-- The port of a job that blocks its submitter; the next string is searched from before it. -/
def blockPort (start : List Char) (options2 : BitVec 32) (niosPort : Int) : Scan Int := do
  if has options2 SUB2_BSUB_BLOCK then
    let line ← get
    let niosPort ← given (line ≠ []) niosPort int
    set line
    return niosPort
  else
    set start
    return niosPort

def readJobNewTail (l : JobNewLog F) : Scan (JobNewLog F) := do
  let mailUser ← saveQStr
  let projectName ← saveQStr
  let niosPort ← given (has l.options SUB_INTERACTIVE) 0 int1
  let maxNumProcessors ← int1
  let schedHostType ← saveQStr
  let loginShell ← saveQStr
  let start ← get
  let options2 ← int
  let idx ← int
  let niosPort ← blockPort start (BitVec.ofInt 32 options2) niosPort
  let rLimits := if has l.options SUB_RLIMIT_UNIT_IS_KB then l.rLimits else convertRLimit true l.rLimits
  let inFileSpool ← copyQStr MAXFILENAMELEN false
  let commandSpool ← copyQStr MAXFILENAMELEN false
  let jobSpoolDir ← copyQStr MAXPATHLEN false
  let userPriority ← int
  return { l with
    mailUser, projectName, niosPort, maxNumProcessors, schedHostType, loginShell,
    options2 := BitVec.ofInt 32 options2, idx, rLimits, inFileSpool, commandSpool, jobSpoolDir, userPriority }

def readJobNew : Scan (JobNewLog F) := do
  let l ← readJobNewHead ft
  let xf ← counted readXFile
  readJobNewTail { l with xf }

/-- What is printed is read as a line, and the line by `readJobNew`. -/
def rereadJobNew (l : JobNewLog F) : Except ReadError (JobNewLog F) :=
  match getNextLine (text ft (writeJobNew l).pieces ++ (writeJobNew l).ending) with
  | (some line, _) => ((readJobNew ft).run' (line.drop 1))
  | (none, _) => .error .eventFormat

end

def Plain (str : List Char) : Prop := ∀ c ∈ str, isSpace c = true → c = ' '

instance (str : List Char) : Decidable (Plain str) := List.decidableBAll (fun c => isSpace c = true → c = ' ') str

section

variable {F : Type}

def JobNewLog.strings (l : JobNewLog F) : List (List Char) :=
  [l.userName, l.hostSpec, l.queue, l.resReq, l.fromHost, l.cwd, l.chkpntDir, l.inFile, l.outFile, l.errFile,
    l.inFileSpool, l.commandSpool, l.jobSpoolDir, l.subHomeDir, l.jobFile, l.dependCond, l.jobName, l.command,
    l.preExecCmd, l.mailUser, l.projectName, l.schedHostType, l.loginShell] ++
  (l.askedHosts ++ l.xf.flatMap fun x => [x.subFn, x.execFn])

def JobNewLog.arrays (l : JobNewLog F) : List (List Char × Nat) :=
  [(l.userName, MAX_LSB_NAME_LEN), (l.hostSpec, MAXHOSTNAMELEN), (l.queue, MAX_LSB_NAME_LEN),
    (l.fromHost, MAXHOSTNAMELEN), (l.cwd, MAXFILENAMELEN), (l.chkpntDir, MAXFILENAMELEN), (l.inFile, MAXFILENAMELEN),
    (l.outFile, MAXFILENAMELEN), (l.errFile, MAXFILENAMELEN), (l.inFileSpool, MAXFILENAMELEN),
    (l.commandSpool, MAXFILENAMELEN), (l.jobSpoolDir, MAXPATHLEN), (l.subHomeDir, MAXFILENAMELEN),
    (l.jobFile, MAXFILENAMELEN), (l.jobName, MAXLINELEN), (l.command, MAXLINELEN)] ++
  l.xf.flatMap fun x => [(x.subFn, MAXFILENAMELEN), (x.execFn, MAXFILENAMELEN)]

structure Shaped (l : JobNewLog F) : Prop where
  plain : ∀ str ∈ l.strings, Plain str
  sized : ∀ p ∈ l.arrays, p.1.length < p.2

def Piece.unstripped : Piece F → Piece F
  | .stripped str => .qstr str
  | p => p

def Piece.contents : Piece F → List (List Char)
  | .qstr str => [str]
  | .stripped str => [str]
  | .raw str => [str]
  | _ => []

theorem seen_eq_unstripped {p : Piece F} (h : ∀ str ∈ p.contents, Plain str) : p.seen = p.unstripped := by
  cases p with
  | qstr str => simp [Piece.seen, Piece.unstripped, map_blanked_eq_self (h str (by simp [Piece.contents]))]
  | stripped str =>
    have hs := h str (by simp [Piece.contents])
    simp [Piece.seen, Piece.unstripped, subNewLine_eq_self (not_newline_of_plain hs), map_blanked_eq_self hs]
  | raw str => simp [Piece.seen, Piece.unstripped, map_blanked_eq_self (h str (by simp [Piece.contents]))]
  | int | float | nothing => rfl

theorem contents_subset (l : JobNewLog F) : ∀ str ∈ (writeJobNew l).pieces.flatMap Piece.contents, str ∈ l.strings := by
  have hpor : ∀ c : Bool, (shown c [Piece.int l.niosPort] : List (Piece F)).flatMap Piece.contents = [] := by
    intro c
    cases c <;> rfl
  intro str hs
  simp only [writeJobNew, JobNewLog.head, JobNewLog.tail, flatten_cons, flatten_nil,
    flatMap_append, hpor, ints, qstrs, XFile.pieces,
    flatMap_assoc, flatMap_cons, flatMap_nil, Piece.contents, mem_append, mem_cons,
    not_mem_nil, mem_flatMap] at hs
  simp only [JobNewLog.strings, mem_append, mem_cons, not_mem_nil, mem_flatMap]
  grind

@[simp] theorem unstripped_qstrs (strs : List (List Char)) : (qstrs strs).map (Piece.unstripped (F := F)) = qstrs strs := by
  simp [qstrs, map_flatMap, Piece.unstripped]

@[simp] theorem unstripped_ints (is : List Int) : (ints is).map (Piece.unstripped (F := F)) = ints is := by
  simp [ints, map_flatMap, Piece.unstripped]

variable {ft : FloatText F}

@[simp] theorem counted_line (scan : Scan α) (n : Nat) :
    (counted scan).run (line ft (.int n :: ps)) = (times n scan).run (line ft ps) := by
  simp [counted, ok_bind]

@[simp] theorem times_limits (limits : Fin LSF_RLIM_NLIMITS → Int) :
    (times LSF_RLIM_NLIMITS int1).run (line ft (ints (List.ofFn limits) ++ ps)) = .ok (List.ofFn limits, line ft ps) := by
  have h : (times (List.ofFn limits).length int1).run (line ft (ints (List.ofFn limits) ++ ps)) = _ := times_int1 _
  simpa using h

/-- What `readJobNew` has when it comes to the files. -/
def JobNewLog.headRead (ft : FloatText F) (l : JobNewLog F) : JobNewLog F :=
  { l with
    hostFactor := ft.rounded 6 2 l.hostFactor, submitTime := toInt l.submitTime, beginTime := toInt l.beginTime, termTime := toInt l.termTime,
    rLimits := l.loggedLimits, options2 := 0, inFileSpool := [], commandSpool := [], jobSpoolDir := [], xf := [],
    mailUser := [], projectName := [], niosPort := 0, maxNumProcessors := 0, schedHostType := [], loginShell := [],
    idx := 0, userPriority := 0 }

/-- The tests of `readJobNew` up to there. -/
@[mk_iff] structure HeadFits (l : JobNewLog F) : Prop where
  userName : Fits MAX_LSB_NAME_LEN true l.userName
  hostSpec : Fits MAXHOSTNAMELEN false l.hostSpec
  queue : Fits MAX_LSB_NAME_LEN true l.queue
  fromHost : Fits MAXHOSTNAMELEN true l.fromHost
  cwd : Fits MAXFILENAMELEN false l.cwd
  chkpntDir : Fits MAXFILENAMELEN false l.chkpntDir
  inFile : Fits MAXFILENAMELEN false l.inFile
  outFile : Fits MAXFILENAMELEN false l.outFile
  errFile : Fits MAXFILENAMELEN false l.errFile
  subHomeDir : Fits MAXFILENAMELEN false l.subHomeDir
  jobFile : Fits MAXFILENAMELEN true l.jobFile
  askedHosts : ∀ str ∈ l.askedHosts, str.length < MAXLINELEN
  jobName : Fits MAX_CMD_DESC_LEN false l.jobName
  command : Fits MAX_CMD_DESC_LEN false l.command

theorem readJobNewHead_iff (l : JobNewLog F) (ps : List (Piece F)) :
    (readJobNewHead ft).run (line ft (l.head.map .unstripped ++ ps)) = .ok y ↔
      HeadFits l ∧ (l.headRead ft, line ft ps) = y := by
  have hl : (fun i : Fin LSF_RLIM_NLIMITS => (List.ofFn l.loggedLimits).getD i 0) = l.loggedLimits := by
    funext i
    simp
  simp only [JobNewLog.head, flatten_cons, flatten_nil, map_append, map_cons, map_nil,
    unstripped_ints, unstripped_qstrs, Piece.unstripped, append_assoc, cons_append, nil_append,
    append_nil]
  simp only [readJobNewHead, StateT.run_bind, int_line, int_text, ok_bind, skip_text, copyQStr_line, ite_bind_eq_ok,
    times_limits, float_line, saveQStr_line, counted_line, times_stripInto_qstrs]
  simp only [BitVec.ofInt_toInt, hl, pure_run, headFits_iff, and_assoc, JobNewLog.headRead, Except.ok.injEq]

@[mk_iff] structure TailFits (l : JobNewLog F) : Prop where
  inFileSpool : Fits MAXFILENAMELEN false l.inFileSpool
  commandSpool : Fits MAXFILENAMELEN false l.commandSpool
  jobSpoolDir : Fits MAXPATHLEN false l.jobSpoolDir

def JobNewLog.portRead (l : JobNewLog F) : Int :=
  if has l.options2 SUB2_BSUB_BLOCK ∨ has l.options SUB_INTERACTIVE then l.niosPort else 0

/-- `readJobNewTail` sets the fields that `readJobNewHead` has left. -/
def JobNewLog.tailRead (l l0 : JobNewLog F) : JobNewLog F :=
  { l0 with
    mailUser := l.mailUser, projectName := l.projectName, niosPort := l.portRead,
    maxNumProcessors := l.maxNumProcessors, schedHostType := l.schedHostType, loginShell := l.loginShell,
    options2 := l.options2, idx := l.idx, inFileSpool := l.inFileSpool, commandSpool := l.commandSpool,
    jobSpoolDir := l.jobSpoolDir, userPriority := l.userPriority,
    rLimits := if has l.options SUB_RLIMIT_UNIT_IS_KB then l0.rLimits else convertRLimit true l0.rLimits }

theorem blockPort_run (start : List Char) (options2 : BitVec 32) (port port' : Int) :
    (blockPort start options2 port').run (text ft (shown (has options2 SUB2_BSUB_BLOCK) [.int port] ++ ps)) =
      if has options2 SUB2_BSUB_BLOCK then .ok (port, text ft (.int port :: ps)) else .ok (port', start) := by
  by_cases hb : has options2 SUB2_BSUB_BLOCK
  · have hne : text ft (.int port :: ps) ≠ [] := by simp [text_cons]
    simp [blockPort, hb, hne, given, shown]
  · simp [blockPort, hb]
    rfl

theorem readJobNewTail_iff (ft : FloatText F) (l l0 : JobNewLog F) (ho : l0.options = l.options) :
    (∃ line', (readJobNewTail l0).run (line ft (l.tail.map .unstripped)) = .ok (y, line')) ↔
      TailFits l ∧ l.tailRead l0 = y := by
  have hpor : ∀ c : Bool, (shown c [Piece.int l.niosPort] : List (Piece F)).map .unstripped =
      shown c [Piece.int l.niosPort] := by
    intro c
    cases c <;> rfl
  simp only [JobNewLog.tail, flatten_cons, flatten_nil, map_append, map_cons, map_nil,
    Piece.unstripped, hpor, cons_append, nil_append, append_nil]
  simp only [readJobNewTail, StateT.run_bind, saveQStr_line, ok_bind, ho, given_int1, int1_line, int_line,
    int_text, StateT.run_get, pure_bind, BitVec.ofInt_toInt, blockPort_run]
  -- where the search for the next string begins
  by_cases hb : has l.options2 SUB2_BSUB_BLOCK
  · simp only [hb, if_true, ok_bind, copyQStr_text_int, copyQStr_text, copyQStr_line, ite_bind_eq_ok, int_line, pure_run,
      tailFits_iff, JobNewLog.tailRead, JobNewLog.portRead, and_assoc, Except.ok.injEq, true_or, Prod.mk.injEq, ho,
      exists_and_left, exists_eq', and_true]
  · simp only [hb, if_false, Bool.false_eq_true, ok_bind, shown, nil_append, copyQStr_int, copyQStr_text_int, copyQStr_text, copyQStr_line,
      ite_bind_eq_ok, int_line, pure_run, tailFits_iff, JobNewLog.tailRead, JobNewLog.portRead, and_assoc,
      Except.ok.injEq, false_or, Prod.mk.injEq, ho, exists_and_left, exists_eq', and_true]

def XFile.Unquoted (x : XFile) : Prop := '"' ∉ x.subFn ∧ '"' ∉ x.execFn
  deriving Decidable

theorem copyQStr_ok {line line' str : List Char}
    (h : (copyQStr maxLen nonNil).run line = .ok (str, line')) : ∃ rest, strip.run line = .ok (str, rest) := by
  simp only [copyQStr, StateT.run_bind] at h
  obtain ⟨⟨str', rest⟩, hs, h⟩ := bind_ok h
  obtain ⟨⟨_, _⟩, -, h⟩ := bind_ok h
  split at h
  · obtain ⟨rfl, -⟩ := Prod.mk.inj (Except.ok.inj h)
    exact ⟨rest, hs⟩
  · cases h

structure XFile.Fits (x : XFile) : Prop where
  unquoted : x.Unquoted
  subFn : Scan.Fits MAXFILENAMELEN false x.subFn
  execFn : Scan.Fits MAXFILENAMELEN false x.execFn

theorem readXFile_line (hx : x.Fits) : readXFile.run (line ft (x.pieces ++ ps)) = .ok (x, line ft ps) := by
  simp only [readXFile, XFile.pieces, cons_append, nil_append, StateT.run_bind, line_raw hx.unquoted.1,
    line_raw hx.unquoted.2, copyQStr_line, if_pos hx.subFn, if_pos hx.execFn, ok_bind, int1_line, pure_run]

theorem copyQStr_raw_ok (h : (copyQStr maxLen nonNil).run (line ft (.raw str :: ps)) = .ok (str, line')) :
    '"' ∉ str ∧ Fits maxLen nonNil str ∧ line' = line ft ps := by
  obtain ⟨_, hstr⟩ := copyQStr_ok h
  have hs := no_quote_of_strip_raw hstr
  rw [line_raw hs, copyQStr_line] at h
  split at h
  · next hf => exact ⟨hs, hf, (congrArg Prod.snd (Except.ok.inj h)).symm⟩
  · cases h

theorem fits_of_readXFile (h : readXFile.run (line ft (x.pieces ++ ps)) = .ok (x, rest)) : x.Fits := by
  obtain ⟨⟨subFn, line1⟩, hs, h⟩ := bind_ok h
  obtain ⟨⟨execFn, line2⟩, he, h⟩ := bind_ok h
  obtain ⟨⟨options, line3⟩, -, h⟩ := bind_ok h
  have hx := congrArg Prod.fst (Except.ok.inj h)
  obtain rfl : subFn = x.subFn := congrArg XFile.subFn hx
  obtain rfl : execFn = x.execFn := congrArg XFile.execFn hx
  obtain ⟨hsubFn, hsubFits, rfl⟩ := copyQStr_raw_ok hs
  obtain ⟨hexecFn, hexecFits, -⟩ := copyQStr_raw_ok he
  exact ⟨⟨hsubFn, hexecFn⟩, hsubFits, hexecFits⟩

theorem times_readXFile (h : ∀ x ∈ xf, x.Fits) :
    (times xf.length readXFile).run (line ft (xf.flatMap XFile.pieces ++ ps)) = .ok (xf, line ft ps) := by
  have hr : (times xf.length readXFile).run (line ft (xf.flatMap XFile.pieces ++ ps)) = .ok (xf.map id, line ft ps) :=
    times_line ft fun x hx _ => readXFile_line (h x hx)
  rwa [map_id] at hr

theorem times_readXFile_iff (xf : List XFile) :
    (∃ rest, (times xf.length readXFile).run (line ft (xf.flatMap XFile.pieces ++ ps)) = .ok (xf, rest)) ↔
      ∀ x ∈ xf, x.Fits := by
  constructor
  · rintro ⟨rest, h⟩
    induction xf generalizing rest with
    | nil => simp
    | cons x xf ih =>
      obtain ⟨⟨x', line1⟩, hx, h⟩ := bind_ok h
      obtain ⟨⟨xf', line2⟩, hxf, h⟩ := bind_ok h
      obtain ⟨rfl, rfl⟩ := List.cons.inj (congrArg Prod.fst (Except.ok.inj h))
      have hf := fits_of_readXFile hx
      obtain rfl : line1 = line ft (xf'.flatMap XFile.pieces ++ ps) :=
        congrArg Prod.snd (Except.ok.inj (hx.symm.trans (readXFile_line hf)))
      simpa [hf] using ih line2 hxf
  · intro h
    exact ⟨_, times_readXFile h⟩

theorem readJobNewTail_xf (l : JobNewLog F) : Yields (readJobNewTail l) fun y => y.xf = l.xf := by
  repeat' refine yields_bind fun _ => ?_
  exact yields_pure rfl

def JobNewLog.reread (ft : FloatText F) (l : JobNewLog F) : JobNewLog F :=
  l.tailRead { l.headRead ft with xf := l.xf }

/-- `readJobNew` finds the files printed iff no name has a quote and every test is passed. -/
theorem readJobNew_iff (ft : FloatText F) (l y : JobNewLog F) :
    (∃ line', (readJobNew ft).run (line ft ((writeJobNew l).pieces.map .unstripped)) = .ok (y, line')) ∧ y.xf = l.xf ↔
      HeadFits l ∧ (∀ x ∈ l.xf, x.Fits) ∧ TailFits l ∧ l.reread ft = y := by
  have hf : (l.xf.flatMap XFile.pieces).map Piece.unstripped = l.xf.flatMap (XFile.pieces (F := F)) := by
    rw [map_flatMap]
    rfl
  have hc : Piece.unstripped (.int l.xf.length) = (.int l.xf.length : Piece F) := rfl
  have hr : (∀ x ∈ l.xf, x.Fits) → (times l.xf.length readXFile).run
      (line ft (l.xf.flatMap XFile.pieces ++ l.tail.map .unstripped)) = .ok (l.xf, line ft (l.tail.map .unstripped)) :=
    times_readXFile
  have ht := readJobNewTail_iff ft l { l.headRead ft with xf := l.xf } rfl (y := y)
  simp only [writeJobNew, flatten_cons, flatten_nil, append_nil, map_append, map_cons,
    hf, hc, cons_append, nil_append, readJobNew, StateT.run_bind]
  constructor
  · rintro ⟨⟨line', h⟩, hxf⟩
    obtain ⟨p, hh, h⟩ := bind_ok h
    obtain ⟨hheadFits, rfl⟩ := (readJobNewHead_iff l _).mp hh
    obtain ⟨⟨xf, line1⟩, hc, h⟩ := bind_ok h
    obtain rfl : l.xf = xf := hxf.symm.trans (readJobNewTail_xf _ _ _ _ h)
    rw [counted_line] at hc
    have hf := (times_readXFile_iff l.xf).mp ⟨_, hc⟩
    obtain rfl : line1 = line ft (l.tail.map .unstripped) :=
      congrArg Prod.snd (Except.ok.inj (hc.symm.trans (hr hf)))
    obtain ⟨htailFits, hy⟩ := ht.mp ⟨line', h⟩
    exact ⟨hheadFits, hf, htailFits, hy⟩
  · rintro ⟨hheadFits, hf, htailFits, rfl⟩
    obtain ⟨line', ht⟩ := ht.mpr ⟨htailFits, rfl⟩
    refine ⟨⟨line', ?_⟩, rfl⟩
    rw [(readJobNewHead_iff l _).mpr ⟨hheadFits, rfl⟩, ok_bind, counted_line, hr hf, ok_bind]
    exact ht

theorem rereadJobNew_eq_ok {l y : JobNewLog F} (hl : ∀ str ∈ l.strings, Plain str) : rereadJobNew ft l = .ok y ↔
      ∃ line', (readJobNew ft).run (line ft ((writeJobNew l).pieces.map .unstripped)) = .ok (y, line') := by
  have hc : ∀ p ∈ (writeJobNew l).pieces, ∀ str ∈ p.contents, Plain str := fun p hp str hs =>
    hl str (contents_subset l str (mem_flatMap.mpr ⟨p, hp, hs⟩))
  have hseen : (writeJobNew l).pieces.map Piece.seen = (writeJobNew l).pieces.map Piece.unstripped :=
    map_congr_left fun p hp => seen_eq_unstripped (hc p hp)
  have hnew : '\n' ∉ text ft (writeJobNew l).pieces := by
    rw [newline_mem_text]
    rintro ⟨str, hs, hn⟩
    obtain ⟨p, hp, hs⟩ := mem_flatMap.mp hs
    refine not_newline_of_plain (hc p hp str ?_) hn
    cases p <;> simp_all [Piece.strings, Piece.contents]
  have ht : trimmed (text ft (writeJobNew l).pieces) = text ft ((writeJobNew l).pieces.map .unstripped) := by
    have hlast : (writeJobNew l).pieces.getLast? = some (.int l.userPriority) := by
      simp [writeJobNew, JobNewLog.tail, List.getLast?_append, List.getLast?_cons]
    simpa [hseen] using trimmed_text [] hlast (by simp)
  have hne : trimmed (text ft (writeJobNew l).pieces) ≠ [] := by
    rw [ht]
    simp [writeJobNew, JobNewLog.head, text_cons]
  have hl : getNextLine (text ft (writeJobNew l).pieces ++ ['\n']) = (some (trimmed (text ft (writeJobNew l).pieces)), []) :=
    getNextLine_line hnew hne []
  unfold rereadJobNew
  rw [show (writeJobNew l).ending = ['\n'] from rfl, hl, ht]
  exact run'_eq_ok

theorem toInt_eq_self : toInt i = i ↔ -2 ^ 31 ≤ i ∧ i < 2 ^ 31 := by
  unfold toInt
  rw [Int.bmod_def]
  split <;> omega

theorem limit_back_iff (v : Int) :
    (if 0 < (if 0 < v then toInt (v * 1024) else v) then (if 0 < v then toInt (v * 1024) else v) / 1024
      else if 0 < v then toInt (v * 1024) else v) = v ↔ v < 2 ^ 21 := by
  by_cases hv : 0 < v
  · unfold toInt
    rw [Int.bmod_def]
    split <;> split <;> omega
  · simp only [if_neg hv]
    exact iff_of_true trivial (by omega)

theorem convertRLimit_back_iff (limits : Fin LSF_RLIM_NLIMITS → Int) :
    convertRLimit true (convertRLimit false limits) = limits ↔ ∀ i, isByteLimit i → limits i < 2 ^ 21 := by
  rw [funext_iff]
  refine forall_congr' fun i => ?_
  unfold convertRLimit
  by_cases hi : isByteLimit i
  · simpa [hi] using limit_back_iff (limits i)
  · simp [hi]

def limitIndex (i : Rlimit) : Fin LSF_RLIM_NLIMITS := ⟨i.ctorIdx, by cases i <;> decide⟩

theorem lt_of_limitIsOk (hok : limitIsOk (limits ∘ limitIndex) = true) (hi : isByteLimit i) : limits i < 2 ^ 21 := by
  have ha : ∀ i, isByteLimit i → ∃ r ∈ [Rlimit.FSIZE, .DATA, .STACK, .CORE, .RSS, .VMEM], limitIndex r = i := by decide
  obtain ⟨r, hr, rfl⟩ := ha i hi
  have hs := all_eq_true.mp hok r hr
  rw [Bool.or_eq_true, beq_iff_eq, Nat.shiftRight_eq_div_pow] at hs
  rcases hs with hn | hz
  · have hle : limits (limitIndex r) ≤ 0 := by simpa using hn
    omega
  · have hle := Int.self_le_toNat ((limits ∘ limitIndex) r)
    exact hle.trans_lt (by omega)

/-- A limit that is accepted does not overflow, and all limits come back. -/
theorem convertRLimit_accepted (limits : Fin LSF_RLIM_NLIMITS → Int) (hok : limitIsOk (limits ∘ limitIndex) = true) :
    (∀ i, isByteLimit i → 0 < limits i → convertRLimit false limits i = limits i * 1024 ∧ limits i * 1024 < 2 ^ 31) ∧
      convertRLimit true (convertRLimit false limits) = limits ∧
        ∀ toKb i, isByteLimit i = false ∨ limits i ≤ 0 → convertRLimit toKb limits i = limits i := by
  refine ⟨fun i hi hpos => ?_, (convertRLimit_back_iff limits).mpr fun i hi => lt_of_limitIsOk hok hi, fun toKb i h => ?_⟩
  · have hlt := lt_of_limitIsOk hok hi
    rw [convertRLimit, if_pos ⟨hi, hpos⟩]
    exact ⟨toInt_eq_self.mpr (by omega), by omega⟩
  · exact if_neg fun hi => h.elim (by simp [hi.1]) (not_le.mpr hi.2)

theorem convertRLimit_accepted_most :
    convertRLimit true (convertRLimit false fun _ => 2 ^ 21 - 1) = fun _ => 2 ^ 21 - 1 :=
  (convertRLimit_accepted _ (by decide)).2.1

/-- What of a record `readJobNew` can give back. -/
structure Kept (l : JobNewLog F) : Prop where
  userName : l.userName ≠ []
  queue : l.queue ≠ []
  fromHost : l.fromHost ≠ []
  jobFile : l.jobFile ≠ []
  askedHosts : ∀ str ∈ l.askedHosts, str.length < MAXLINELEN
  jobName : l.jobName.length < MAX_CMD_DESC_LEN
  command : l.command.length < MAX_CMD_DESC_LEN
  xf : ∀ x ∈ l.xf, x.Unquoted
  niosPort : l.niosPort = 0 ∨ has l.options SUB_INTERACTIVE ∨ has l.options2 SUB2_BSUB_BLOCK
  submitTime : -2 ^ 31 ≤ l.submitTime ∧ l.submitTime < 2 ^ 31
  beginTime : -2 ^ 31 ≤ l.beginTime ∧ l.beginTime < 2 ^ 31
  termTime : -2 ^ 31 ≤ l.termTime ∧ l.termTime < 2 ^ 31
  rLimits : has l.options SUB_RLIMIT_UNIT_IS_KB ∨ ∀ i, isByteLimit i → l.rLimits i < 2 ^ 21

theorem portRead_eq_iff (l : JobNewLog F) : l.portRead = l.niosPort ↔
    l.niosPort = 0 ∨ has l.options SUB_INTERACTIVE ∨ has l.options2 SUB2_BSUB_BLOCK := by
  unfold JobNewLog.portRead
  split
  · next h => exact iff_of_true rfl (.inr h.symm)
  · next h => exact ⟨fun h0 => .inl h0.symm, fun h' => (h'.resolve_right fun hb => h hb.symm).symm⟩

/-- The record that comes back differs in the times, the port and the limits only. -/
theorem reread_eq_iff (l : JobNewLog F) : { l.reread ft with hostFactor := l.hostFactor } = l ↔
    toInt l.submitTime = l.submitTime ∧ toInt l.beginTime = l.beginTime ∧ toInt l.termTime = l.termTime ∧
      l.portRead = l.niosPort ∧ (has l.options SUB_RLIMIT_UNIT_IS_KB ∨ ∀ i, isByteLimit i → l.rLimits i < 2 ^ 21) := by
  have hl : (l.reread ft).rLimits = l.rLimits ↔
      has l.options SUB_RLIMIT_UNIT_IS_KB ∨ ∀ i, isByteLimit i → l.rLimits i < 2 ^ 21 := by
    by_cases hkb : has l.options SUB_RLIMIT_UNIT_IS_KB
    · simp [JobNewLog.reread, JobNewLog.tailRead, JobNewLog.headRead, JobNewLog.loggedLimits, hkb]
    · simp [JobNewLog.reread, JobNewLog.tailRead, JobNewLog.headRead, JobNewLog.loggedLimits, hkb,
        convertRLimit_back_iff]
  rw [← hl, JobNewLog.ext_iff]
  simp [JobNewLog.reread, JobNewLog.tailRead, JobNewLog.headRead]
  tauto

/-- A string that fits fails a test of `copyQStr` only if it has to be there or the test is stricter. -/
theorem fits_iff (hl : Shaped l) : HeadFits l ∧ (∀ x ∈ l.xf, x.Fits) ∧ TailFits l ↔
    (l.userName ≠ [] ∧ l.queue ≠ [] ∧ l.fromHost ≠ [] ∧ l.jobFile ≠ []) ∧
      (∀ str ∈ l.askedHosts, str.length < MAXLINELEN) ∧ l.jobName.length < MAX_CMD_DESC_LEN ∧
      l.command.length < MAX_CMD_DESC_LEN ∧ ∀ x ∈ l.xf, x.Unquoted := by
  have hs := hl.sized
  simp only [JobNewLog.arrays, cons_append, nil_append, forall_mem_cons, forall_mem_flatMap,
    not_mem_nil, false_implies, implies_true, and_true] at hs
  obtain ⟨hu, hspec, hq, hfrom, hcwd, hchk, hin, ho, he, hinSpool, hcmdSpool, hspoolDir, hhome, hf, -,
    -, hxf⟩ := hs
  constructor
  · rintro ⟨hh, hfil, -⟩
    exact ⟨⟨hh.userName.2 rfl, hh.queue.2 rfl, hh.fromHost.2 rfl, hh.jobFile.2 rfl⟩, hh.askedHosts,
      hh.jobName.1, hh.command.1, fun x hx => (hfil x hx).unquoted⟩
  · rintro ⟨⟨hu', hq', hfrom', hf'⟩, hh, hname, hc, hunq⟩
    refine ⟨?_, fun x hx => ?_, fits_of_lt hinSpool, fits_of_lt hcmdSpool, fits_of_lt hspoolDir⟩
    · exact {
        userName := ⟨hu, fun _ => hu'⟩
        hostSpec := fits_of_lt hspec
        queue := ⟨hq, fun _ => hq'⟩
        fromHost := ⟨hfrom, fun _ => hfrom'⟩
        cwd := fits_of_lt hcwd
        chkpntDir := fits_of_lt hchk
        inFile := fits_of_lt hin
        outFile := fits_of_lt ho
        errFile := fits_of_lt he
        subHomeDir := fits_of_lt hhome
        jobFile := ⟨hf, fun _ => hf'⟩
        askedHosts := hh
        jobName := fits_of_lt hname
        command := fits_of_lt hc }
    · exact ⟨hunq x hx, fits_of_lt (hxf x hx).1, fits_of_lt (hxf x hx).2⟩

/-- A record with plain strings that fit comes back, its floating point number apart, iff it is kept. -/
theorem jobNew_reread_iff (ft : FloatText F) (l : JobNewLog F) (hl : Shaped l) :
    (∃ y, rereadJobNew ft l = .ok y ∧ { y with hostFactor := l.hostFactor } = l) ↔ Kept l := by
  simp only [rereadJobNew_eq_ok hl.plain]
  constructor
  · rintro ⟨y, hr, hy⟩
    have hxf := congrArg JobNewLog.xf hy
    obtain ⟨hh, hf, ht, rfl⟩ := (readJobNew_iff ft l y).mp ⟨hr, hxf⟩
    obtain ⟨⟨huser, hq, hfrom, hfile⟩, hhos, hname, hc, hu⟩ := (fits_iff hl).mp ⟨hh, hf, ht⟩
    obtain ⟨hs, hb, hterm, hport, hlim⟩ := (reread_eq_iff l).mp hy
    exact ⟨huser, hq, hfrom, hfile, hhos, hname, hc, hu, (portRead_eq_iff l).mp hport,
      toInt_eq_self.mp hs, toInt_eq_self.mp hb, toInt_eq_self.mp hterm, hlim⟩
  · intro hkept
    obtain ⟨hh, hf, ht⟩ := (fits_iff hl).mpr ⟨⟨hkept.userName, hkept.queue, hkept.fromHost, hkept.jobFile⟩,
      hkept.askedHosts, hkept.jobName, hkept.command, hkept.xf⟩
    obtain ⟨hr, -⟩ := (readJobNew_iff ft l _).mpr ⟨hh, hf, ht, rfl⟩
    refine ⟨l.reread ft, hr, (reread_eq_iff l).mpr ?_⟩
    exact ⟨toInt_eq_self.mpr hkept.submitTime, toInt_eq_self.mpr hkept.beginTime, toInt_eq_self.mpr hkept.termTime,
      (portRead_eq_iff l).mpr hkept.niosPort, hkept.rLimits⟩

def quotedJob : JobNewLog Int where
  jobId := 101
  userId := 500
  userName := "lsfadmin".toList
  options := 0x4000000
  options2 := 0
  numProcessors := 2
  submitTime := 1400000000
  beginTime := 0
  termTime := 0
  sigValue := -1
  chkpntPeriod := 0
  restartPid := 0
  rLimits := fun i => if i.val = 5 then 2000 else -1
  hostSpec := []
  hostFactor := 1
  umask := 18
  queue := "normal".toList
  resReq := "select[type == \"any\"]".toList
  fromHost := "hostA".toList
  cwd := "work".toList
  chkpntDir := []
  inFile := "in file".toList
  outFile := []
  errFile := []
  inFileSpool := []
  commandSpool := []
  jobSpoolDir := []
  subHomeDir := "/home/lsfadmin".toList
  jobFile := "1400000000.101".toList
  askedHosts := ["hostA".toList, "hostB".toList]
  dependCond := []
  jobName := "say \"\"".toList
  command := "echo \"a \"\" b\"".toList
  xf := [⟨"in".toList, "in".toList, 1⟩, ⟨"out".toList, "out".toList, 4⟩]
  preExecCmd := []
  mailUser := []
  projectName := "default".toList
  niosPort := 4001
  maxNumProcessors := 2
  schedHostType := []
  loginShell := []
  idx := 0
  userPriority := -1

theorem jobNew_reread_quoted : Shaped quotedJob ∧ Kept quotedJob ∧
    ∃ y, rereadJobNew .whole quotedJob = .ok y ∧ { y with hostFactor := quotedJob.hostFactor } = quotedJob := by
  have hs : Shaped quotedJob := ⟨by decide +kernel, by decide +kernel⟩
  have hkept : Kept quotedJob := by constructor <;> decide +kernel
  exact ⟨hs, hkept, (jobNew_reread_iff .whole quotedJob hs).mpr hkept⟩

/-- The same job with a quote in the name of a file: its record cannot be read. -/
def quotedFile : JobNewLog Int := { quotedJob with xf := [⟨"a\"b".toList, "b".toList, 1⟩] }

theorem jobNew_reread_quotedFile : Shaped quotedFile ∧
    ¬ ∃ y, rereadJobNew .whole quotedFile = .ok y ∧ { y with hostFactor := quotedFile.hostFactor } = quotedFile := by
  have hf : (rereadJobNew .whole quotedFile).isOk = false := by decide +kernel
  refine ⟨⟨by decide +kernel, by decide +kernel⟩, ?_⟩
  rintro ⟨y, hy, -⟩
  rw [hy] at hf
  cases hf

end

end OpenLava.Log

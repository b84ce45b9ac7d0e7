import OpenLava.Cmd.JobId
import OpenLava.Log.Events

/-!
The index of the archived event files. `updateJobIdIndexFile` writes a row for each file, the oldest first, with the
ids of the jobs in it; `getNextFileNumFromIndexS` reads the rows one by one and returns the number of the next file
that has a requested job. The newest file has the number 1 and the last row.
-/

namespace OpenLava.Log

open Function List Text Scan
open JobId (LSB_ARRAY_JOBID)

/-- A value goes in front of `v`; `increased` is the value of the header. -/
def before (increased : Bool) (value v : Int) : Bool := if increased then value < v else v < value

def insertSortIntList (increased : Bool) (value : Int) : List Int → List Int
  | [] => [value]
  | v :: list =>
    if v = value then v :: list
    else if before increased value v then value :: v :: list
    else v :: insertSortIntList increased value list

def getMinSortIntList (increased : Bool) (list : List Int) : Option Int :=
  if increased then list.head? else list.getLast?

def getMaxSortIntList (increased : Bool) (list : List Int) : Option Int :=
  if increased then list.getLast? else list.head?

def scannedInt (line : List Char) : Int := ((scanInt line).map Prod.fst).getD 0

def getJobIdFromEvent (line : List Char) : EventType → Int
  | .jobNew | .jobModify | .preExecStart | .jobStart | .jobStartAccept | .jobStatus | .sbdJobStatus | .jobFinish
  | .chkpnt | .mig | .jobAttrSet | .jobSignal | .jobExecute | .jobMsg | .jobMsgAck | .jobSigact | .jobRequeue
  | .jobClean | .jobForce => scannedInt line
  | .jobModify2 => if line.head? = some '"' then scannedInt (line.drop 1) else 0
  | .jobSwitch | .jobMove =>
    match scanInt line with
    | some (_, line) => scannedInt line
    | none => 0
  | .queueCtrl | .hostCtrl | .mbdStart | .mbdDie | .unfulfill | .loadIndex | .logSwitch => 0

/-- A line, in the loop of `getJobIdIndexFromEventFile`. -/
def scanEventJob : Scan Int := do
  let etype ← saveQStr
  match getEventTypeAndKind etype with
  | some (type, true) =>
    let _ ← copyQStr MAX_VERSION_LEN false
    let _ ← int1
    let line ← get
    return getJobIdFromEvent line type
  | _ => throw .eventFormat

def insertEventJob (header : List Int) (line : List Char) : List Int :=
  if line.head? = some '#' then header
  else
    match scanEventJob.run' line with
    | .ok jobId => if jobId = 0 then header else insertSortIntList false jobId header
    | .error _ => header

def eventLines : Nat → List Char → List (List Char)
  | 0, _ => []
  | lines + 1, fp =>
    match getNextLine fp with
    | (none, _) => []
    | (some line, fp) => line :: eventLines lines fp

def getJobIdIndexFromEventFile (fp : List Char) : List Int × Int :=
  let (timeStamp, fp) :=
    match fp with
    | '#' :: rest => (scanInt rest).getD (0, fp)
    | _ => (0, fp)
  ((eventLines (fp.length + 1) fp).foldl insertEventJob [], timeStamp)

/-- The order in which arguments are evaluated, which C leaves open. -/
inductive ArgOrder where
  | leftToRight
  | rightToLeft
  deriving DecidableEq, Repr

def lsb_jobidinstr (jobId : Int) : List Char := decimal jobId

/-- The two `lsb_jobidinstr` share a buffer: both print what the later call has left. -/
def printedBound (order : ArgOrder) (minJobId maxJobId : Int) : List Char :=
  match order with
  | .leftToRight => lsb_jobidinstr maxJobId
  | .rightToLeft => lsb_jobidinstr minJobId

/-- The loop of `writeJobIdIndexToIndexFile`, ten ids to a line. -/
def writeJobIds (col : Nat) : List Int → List Char
  | [] => if col ≠ 0 then ['\n'] else []
  | jobId :: list =>
    (if col = 0 then decimal jobId else ' ' :: decimal jobId) ++
      if col + 1 = 10 then '\n' :: writeJobIds 0 list else writeJobIds (col + 1) list

def writeJobIdIndexToIndexFile (order : ArgOrder) (header : List Int) (timeStamp : Int) : List Char :=
  let minJobId := (getMinSortIntList false header).getD 0
  let maxJobId := (getMaxSortIntList false header).getD 0
  let bound := printedBound order minJobId maxJobId
  '#' :: (decimal (toInt timeStamp) ++ ' ' :: (decimal header.length ++ ' ' :: (bound ++ ' ' :: (bound ++
    '\n' :: writeJobIds 0 header))))

structure IndexFile where
  rows : Nat
  body : List Char

/-- The loop of `updateJobIdIndexFile` from file `i` down to 1. -/
def addRows (order : ArgOrder) (eventFile : Nat → List Char) : Nat → IndexFile → IndexFile
  | 0, index => index
  | i + 1, index =>
    let (header, timeStamp) := getJobIdIndexFromEventFile (eventFile (i + 1))
    addRows order eventFile i
      { rows := index.rows + 1, body := index.body ++ writeJobIdIndexToIndexFile order header timeStamp }

def updateJobIdIndexFile (order : ArgOrder) (index : Option IndexFile) (eventFile : Nat → List Char)
    (totalEventFile : Nat) : IndexFile :=
  match index with
  | some index =>
    if totalEventFile = index.rows + 1 then addRows order eventFile 1 index
    else addRows order eventFile totalEventFile ⟨0, []⟩
  | none => addRows order eventFile totalEventFile ⟨0, []⟩

structure JobIdIndexS where
  fp : List Char
  (totalRows curRow : Int)

def initJobIdIndexS (index : IndexFile) : JobIdIndexS where
  fp := index.body
  totalRows := index.rows
  curRow := 0

structure IndexRow where
  (minJobId maxJobId : Int)
  jobIds : List Int

/-- `n` numbers; the source reads them ten at a time and then one by one. -/
def scanInts : Nat → List Char → Option (List Int × List Char)
  | 0, fp => some ([], fp)
  | n + 1, fp => do
    let (i, fp) ← scanInt fp
    let (is, fp) ← scanInts n fp
    return (i :: is, fp)

def scanRow (fp : List Char) : Option (IndexRow × List Char) := do
  guard (fp.head? = some '#')
  let (_, fp) ← scanInt (fp.drop 1)
  let (totalJobIds, fp) ← scanInt fp
  let (minJobId, fp) ← scanInt fp
  let (maxJobId, fp) ← scanInt fp
  let (jobIds, fp) ← scanInts totalJobIds.toNat (fp.dropWhile isSpace)
  return ({ minJobId, maxJobId, jobIds }, fp.dropWhile isSpace)

def searchDown (jobId : Int) : List Int → Bool
  | [] => false
  | id :: ids => if jobId = id then true else if jobId > id then false else searchDown jobId ids

def IndexRow.hasJob (row : IndexRow) (jobId : Int) : Bool :=
  if jobId > row.maxJobId ∨ jobId < row.minJobId then false else searchDown jobId row.jobIds

def nextFileNum (jobIds : List Int) : Nat → JobIdIndexS → Int × JobIdIndexS
  | 0, indexS => (-1, indexS)
  | turns + 1, indexS =>
    let curRow := indexS.curRow + 1
    if curRow = indexS.totalRows then (0, { indexS with curRow })
    else
      match scanRow indexS.fp with
      | none => (-1, { indexS with curRow })
      | some (row, fp) =>
        if jobIds.any fun jobId => row.hasJob (LSB_ARRAY_JOBID jobId) then
          (indexS.totalRows - curRow + 1, { indexS with fp, curRow })
        else nextFileNum jobIds turns { indexS with fp, curRow }

def getNextFileNumFromIndexS (jobIds : List Int) (indexS : JobIdIndexS) : Int × JobIdIndexS :=
  nextFileNum jobIds (indexS.fp.length + 1) indexS

def fileNums (jobIds : List Int) : Nat → JobIdIndexS → List Int
  | 0, _ => []
  | calls + 1, indexS =>
    let (num, indexS) := getNextFileNumFromIndexS jobIds indexS
    if num ≤ 0 then [num] else num :: fileNums jobIds calls indexS

theorem mem_insertSortIntList : i ∈ insertSortIntList increased value list ↔ i = value ∨ i ∈ list := by
  induction list with
  | nil => simp [insertSortIntList]
  | cons v list ih =>
    unfold insertSortIntList
    split
    · next h => simp [← h]
    · split
      · simp
      · simp only [mem_cons, ih]
        tauto

theorem insertSortIntList_down (h : list.Pairwise (· > ·)) : (insertSortIntList false value list).Pairwise (· > ·) := by
  induction list with
  | nil => simp [insertSortIntList]
  | cons v list ih =>
    obtain ⟨hv, hlist⟩ := pairwise_cons.mp h
    simp only [insertSortIntList, before, Bool.false_eq_true, if_false, decide_eq_true_eq]
    split
    · exact h
    · next hne =>
      split
      · next hlt =>
        exact pairwise_cons.mpr ⟨forall_mem_cons.mpr ⟨hlt, fun i hi => (hv i hi).trans hlt⟩, h⟩
      · next hge =>
        refine pairwise_cons.mpr ⟨fun i hi => ?_, ih hlist⟩
        rcases mem_insertSortIntList.mp hi with rfl | hi
        · omega
        · exact hv i hi

theorem searchDown_eq_true (h : list.Pairwise (· > ·)) : searchDown jobId list = true ↔ jobId ∈ list := by
  induction list with
  | nil => simp [searchDown]
  | cons v list ih =>
    obtain ⟨hv, hlist⟩ := pairwise_cons.mp h
    simp only [searchDown, mem_cons]
    split
    · next heq => simp [heq]
    · next hne =>
      split
      · next hgt =>
        have hn : jobId ∉ list := fun hmem => absurd (hv jobId hmem) (by omega)
        simp [hne, hn]
      · simp [hne, ih hlist]

theorem dropWhile_spaces (h : ∀ c ∈ spaces, isSpace c = true) (text : List Char) :
    (spaces ++ text).dropWhile isSpace = text.dropWhile isSpace :=
  dropWhile_append_of_pos h

theorem scanInt_dropWhile (text : List Char) : scanInt (text.dropWhile isSpace) = scanInt text := by
  simp only [scanInt, dropWhile_idempotent]

theorem scanInts_dropWhile {text left : List Char} (h : scanInts n text = some (is, left)) :
    ∃ left', scanInts n (text.dropWhile isSpace) = some (is, left') ∧ left'.dropWhile isSpace = left.dropWhile isSpace := by
  cases n with
  | zero =>
    obtain ⟨rfl, rfl⟩ := Prod.mk.inj (Option.some.inj h)
    exact ⟨_, rfl, dropWhile_idempotent _ _⟩
  | succ n => exact ⟨left, by simpa only [scanInts, scanInt_dropWhile] using h, rfl⟩

theorem stops_writeJobIds (col : Nat) (list : List Int) (rest : List Char) :
    Stops (writeJobIds (col + 1) list ++ rest) := by
  cases list with
  | nil => simp [writeJobIds, Stops]
  | cons id list => simp [writeJobIds, Stops]

/-- The ids of a row are scanned, whatever white space is in front of them. -/
theorem scanInts_writeJobIds (col : Nat) (list : List Int) {spaces : List Char}
    (hs : ∀ c ∈ spaces, isSpace c = true) (rest : List Char) :
    ∃ left, scanInts list.length (spaces ++ (writeJobIds col list ++ rest)) = some (list, left) ∧
      left.dropWhile isSpace = rest.dropWhile isSpace := by
  induction list generalizing col spaces with
  | nil =>
    refine ⟨_, rfl, ?_⟩
    rw [dropWhile_spaces hs]
    refine dropWhile_spaces (fun c hc => ?_) rest
    unfold writeJobIds at hc
    split at hc
    · obtain rfl := mem_singleton.mp hc
      rfl
    · cases hc
  | cons id list ih =>
    have hn : ∀ behind, Stops behind →
        scanInt (spaces ++ ((if col = 0 then decimal id else ' ' :: decimal id) ++ behind)) = some (id, behind) := by
      intro behind hb
      rw [scanInt_spaces _ hs]
      split
      · exact scanInt_decimal id hb
      · exact (scanInt_spaces [' '] isSpace_blank _).trans (scanInt_decimal id hb)
    simp only [writeJobIds, append_assoc, length_cons, scanInts]
    -- the tenth id ends its line
    by_cases hc : col + 1 = 10
    · obtain ⟨left, hs, hl⟩ := @ih 0 ['\n'] (by simp [isSpace])
      refine ⟨left, ?_, hl⟩
      rw [if_pos hc, hn _ (by simp [Stops])]
      rw [singleton_append] at hs
      simp [hs]
    · obtain ⟨left, hs, hl⟩ := @ih (col + 1) [] (by simp)
      refine ⟨left, ?_, hl⟩
      rw [if_neg hc, hn _ (stops_writeJobIds col list rest)]
      rw [nil_append] at hs
      simp [hs]

/-- The id that is printed as the minimum and as the maximum of a row. -/
def boundOf (order : ArgOrder) (header : List Int) : Int :=
  match order with
  | .leftToRight => header.head?.getD 0
  | .rightToLeft => header.getLast?.getD 0

theorem printedBound_eq (order : ArgOrder) (header : List Int) :
    printedBound order ((getMinSortIntList false header).getD 0) ((getMaxSortIntList false header).getD 0) =
      decimal (boundOf order header) := by
  cases order <;> rfl

/-- A row is read back with one bound in the place of both. -/
theorem scanRow_write (order : ArgOrder) (header : List Int) (timeStamp : Int) {rest : List Char}
    (hr : rest.dropWhile isSpace = rest) : scanRow (writeJobIdIndexToIndexFile order header timeStamp ++ rest) =
      some (⟨boundOf order header, boundOf order header, header⟩, rest) := by
  have hb : ∀ (i : Int) (behind : List Char), Stops behind →
      scanInt (' ' :: (decimal i ++ behind)) = some (i, behind) := fun i behind hbeh =>
    (scanInt_spaces [' '] isSpace_blank _).trans (scanInt_decimal i hbeh)
  have hs : ∀ c behind, c = ' ' ∨ c = '\n' → Stops (c :: behind) := by
    rintro c behind (rfl | rfl) <;> simp [Stops]
  obtain ⟨left, hscan, hl⟩ := @scanInts_writeJobIds 0 header ['\n'] (by simp [isSpace]) rest
  obtain ⟨left', hscan, hl'⟩ := scanInts_dropWhile hscan
  simp only [singleton_append] at hscan
  unfold scanRow writeJobIdIndexToIndexFile
  simp only [printedBound_eq, cons_append, append_assoc, List.head?_cons, drop_succ_cons, drop_zero]
  rw [scanInt_decimal _ (hs _ _ (.inl rfl))]
  simp only [guard_true, Option.pure_def, Option.bind_eq_bind, Option.bind_some]
  rw [hb _ _ (hs _ _ (.inl rfl)), Option.bind_some, hb _ _ (hs _ _ (.inl rfl)), Option.bind_some,
    hb _ _ (hs _ _ (.inr rfl)), Option.bind_some, Int.toNat_natCast, hscan, Option.bind_some, hl', hl, hr]

section

variable {F : Type}

def payloadJob : (type : EventType) → type.Payload F → Option Int
  | .jobNew, l | .jobModify, l => some (JobNewLog.jobId l)
  | .jobModify2, l => some (scannedInt (JobModLog.jobIdStr l))
  | .preExecStart, l | .jobStart, l => some (JobStartLog.jobId l)
  | .jobStartAccept, l => some (JobStartAcceptLog.jobId l)
  | .jobStatus, l => some (JobStatusLog.jobId l)
  | .sbdJobStatus, l => some (SbdJobStatusLog.jobId l)
  | .jobSwitch, l => some (JobSwitchLog.jobId l)
  | .jobMove, l => some (JobMoveLog.jobId l)
  | .jobFinish, l => some (JobFinishLog.jobId l)
  | .chkpnt, l => some (ChkpntLog.jobId l)
  | .mig, l => some (MigLog.jobId l)
  | .jobAttrSet, l => some (JobAttrSetLog.jobId l)
  | .jobSignal, l => some (SignalLog.jobId l)
  | .jobExecute, l => some (JobExecuteLog.jobId l)
  | .jobMsg, l | .jobMsgAck, l => some (JobMsgLog.jobId l)
  | .jobSigact, l => some (SigactLog.jobId l)
  | .jobRequeue, l => some (JobRequeueLog.jobId l)
  | .jobClean, l => some (JobCleanLog.jobId l)
  | .jobForce, l => some (JobForceRequestLog.jobId l)
  | .queueCtrl, _ | .hostCtrl, _ | .mbdStart, _ | .mbdDie, _ | .unfulfill, _ | .loadIndex, _ | .logSwitch, _ => none

/-- The number that is indexed for a record: a message starts with its user. -/
def indexedJob : (type : EventType) → type.Payload F → Int
  | .jobMsg, l | .jobMsgAck, l => JobMsgLog.usrId l
  | type, l => (payloadJob type l).getD 0

variable {ft : FloatText F} {ps : List (Piece F)}

theorem scanInt_line (i : Int) : scanInt (line ft (.int i :: ps)) = some (i, text ft ps) := by
  exact scanInt_decimal i (text_ended ft ps).stops

theorem scannedInt_line (i : Int) : scannedInt (line ft (.int i :: ps)) = i := by
  rw [scannedInt, scanInt_line, Option.map_some, Option.getD_some]

theorem scannedInt_text (i : Int) : scannedInt (text ft (.int i :: ps)) = i := by
  have hb := scanInt_spaces [' '] isSpace_blank (line ft (.int i :: ps))
  rw [scanInt_line, line_cons, singleton_append, ← text_cons] at hb
  rw [scannedInt, hb, Option.map_some, Option.getD_some]

theorem takeWhile_quoted (str rest : List Char) :
    (doubled (str.map blanked) ++ '"' :: rest).takeWhile Char.isDigit = str.takeWhile Char.isDigit := by
  induction str with
  | nil => simp [doubled]
  | cons c str ih =>
    by_cases hc : c.isDigit
    · have hs : blanked c = c := by simp [blanked, isSpace_of_isDigit hc]
      have hq : c ≠ '"' := by rintro rfl; exact absurd hc (by decide)
      simp only [doubled, map_cons, flatMap_cons, hs, hq, if_false] at ih ⊢
      simpa [hc] using ih
    · have hb : (blanked c).isDigit = false := by
        unfold blanked
        split
        · rfl
        · simpa using hc
      by_cases hq : blanked c = '"'
      · simp [doubled, hq, hc]
      · simp [doubled, hq, hb, hc]

theorem scanDigits_quoted (str rest : List Char) :
    (scanDigits (doubled (str.map blanked) ++ '"' :: rest)).map Prod.fst = (scanDigits str).map Prod.fst := by
  simp only [scanDigits, takeWhile_quoted]
  split <;> rfl

theorem scanInt_cons (hc : ¬ isSpace c = true) (text : List Char) : (scanInt (c :: text)).map Prod.fst =
      if c = '-' then Option.map (fun n : Nat => -(n : Int)) ((scanDigits text).map Prod.fst)
      else if c = '+' then Option.map (fun n : Nat => (n : Int)) ((scanDigits text).map Prod.fst)
      else Option.map (fun n : Nat => (n : Int)) ((scanDigits (c :: text)).map Prod.fst) := by
  unfold scanInt
  rw [dropWhile_cons_of_neg hc]
  split
  · next h =>
    obtain ⟨rfl, rfl⟩ := List.cons.inj h
    simp [comp_def]
  · next h =>
    obtain ⟨rfl, rfl⟩ := List.cons.inj h
    simp [comp_def]
  · next hmin hplus =>
    have hmin : c ≠ '-' := fun h => hmin text (by rw [h])
    have hplus : c ≠ '+' := fun h => hplus text (by rw [h])
    simp [hmin, hplus, comp_def]

theorem scannedInt_quoted (str rest : List Char) :
    scannedInt (doubled (str.map blanked) ++ '"' :: rest) = scannedInt str := by
  unfold scannedInt
  congr 1
  induction str with
  | nil => rfl
  | cons c str ih =>
    by_cases hc : isSpace c = true
    · have hb : blanked c = ' ' := by simp [blanked, hc]
      have hs := scanInt_spaces [c] (by simpa using hc) str
      have hs' := scanInt_spaces [' '] isSpace_blank (doubled (str.map blanked) ++ '"' :: rest)
      rw [singleton_append] at hs hs'
      rw [hs, ← ih, ← hs', map_cons, hb]
      rfl
    · have hb : blanked c = c := by simp [blanked, hc]
      have hd := scanDigits_quoted (c :: str) rest
      have ht := scanDigits_quoted str rest
      rw [map_cons, hb] at hd ⊢
      rw [scanInt_cons hc]
      by_cases hq : c = '"'
      · subst hq
        simp only [doubled, flatMap_cons, if_true, cons_append] at hd ⊢
        rfl
      · simp only [doubled, flatMap_cons, hq, if_false, cons_append, nil_append] at hd ht ⊢
        rw [scanInt_cons hc, hd, ht]

theorem getJobIdFromEvent_line (type : EventType) (l : type.Payload F) :
    getJobIdFromEvent (line ft ((writeEventLog type l).pieces.map .seen)) type = indexedJob type l := by
  cases type with
  | queueCtrl | hostCtrl | mbdStart | mbdDie | unfulfill | loadIndex | logSwitch => rfl
  | jobSwitch | jobMove =>
    simp [getJobIdFromEvent, writeEventLog, writeJobSwitch, writeJobMove, ended, Piece.seen, scanInt_line,
      scannedInt_text, indexedJob, payloadJob]
  | jobModify2 =>
    have hl : ∃ ps, line ft ((writeEventLog .jobModify2 l).pieces.map .seen) =
        '"' :: (doubled ((JobModLog.jobIdStr l).map blanked) ++ '"' :: text ft ps) := by
      simp only [writeEventLog, writeJobMod, ended, flatten_cons, cons_append, map_cons, Piece.seen,
        line_cons, Piece.body, append_assoc, nil_append]
      exact ⟨_, rfl⟩
    obtain ⟨ps, hl⟩ := hl
    simp [getJobIdFromEvent, hl, scannedInt_quoted, indexedJob, payloadJob]
  | jobNew | jobModify =>
    simp [getJobIdFromEvent, writeEventLog, writeJobNew, JobNewLog.head, Piece.seen, scannedInt_line, indexedJob,
      payloadJob]
  | _ =>
    simp [getJobIdFromEvent, writeEventLog, ended, writeJobStart, writeJobStartAccept, writeJobStatus,
      writeSbdJobStatus, writeJobFinish, writeChkpnt, writeMig, writeJobAttrSet, writeJobSignal, writeJobExecute,
      writeJobMsg, writeJobSigAct, writeJobRqueue, writeJobClean, writeJobForce, Piece.seen, scannedInt_line,
      indexedJob, payloadJob]

/-- The version is written between quotes as it is. -/
structure EventRec.Versioned (r : EventRec F) : Prop where
  unquoted : '"' ∉ r.version
  length_lt : r.version.length < MAX_VERSION_LEN

theorem insertEventJob_line {r : EventRec F} (hr : r.Versioned) (header : List Int) :
    insertEventJob header (line ft (r.written.pieces.map .seen)) = if r.type.jobRelated ∧
    indexedJob r.type r.eventLog ≠ 0 then insertSortIntList false (indexedJob r.type r.eventLog) header else header :=
    by
  have hq : '"' ∉ r.version.map blanked := fun h => by
    obtain ⟨c, hc, heq⟩ := mem_map.mp h
    exact hr.unquoted (blanked_eq_quote.mp heq ▸ hc)
  have hf : Fits MAX_VERSION_LEN false (r.version.map blanked) := fits_of_lt (by simpa using hr.length_lt)
  obtain ⟨hpla, hname, -⟩ := etype_plain r.type
  have hs : scanEventJob.run (line ft (r.written.pieces.map .seen)) =
      if r.type.jobRelated then .ok (indexedJob r.type r.eventLog, line ft ((writeEventLog r.type r.eventLog).pieces.map .seen))
      else .error .eventFormat := by
    simp only [scanEventJob, EventRec.written, map_cons, cons_append, nil_append, StateT.run_bind,
      Piece.seen, hpla, line_raw hname, saveQStr_line, ok_bind, getEventTypeAndKind_etype]
    cases r.type.jobRelated with
    | false => rfl
    | true =>
      simp only [StateT.run_bind, line_raw hq, copyQStr_line, if_pos hf, ok_bind, int1_line, StateT.run_get,
        pure_bind, getJobIdFromEvent_line, pure_run, if_true]
  unfold insertEventJob
  rw [head_line, if_neg (by decide), StateT.run'_eq, hs]
  cases r.type.jobRelated with
  | false => simp
  | true => by_cases h : indexedJob r.type r.eventLog = 0 <;> simp [h]

/-- An archived event file: the header of `createEvent0File`, and whole records. -/
structure EventFile (F : Type) where
  timeStamp : Int
  records : List (EventRec F)
  clean : ∀ r ∈ records, r.Clean
  versioned : ∀ r ∈ records, r.Versioned

def EventFile.contents (ft : FloatText F) (f : EventFile F) : List Char :=
  '#' :: (decimal f.timeStamp ++ (replicate 23 ' ' ++ '\n' :: f.records.flatMap (lsb_puteventrec ft)))

def EventFile.jobIds (f : EventFile F) : List Int :=
  f.records.foldl (fun header r =>
    if r.type.jobRelated ∧ indexedJob r.type r.eventLog ≠ 0 then
      insertSortIntList false (indexedJob r.type r.eventLog) header
    else header) []

theorem EventFile.jobIds_down (f : EventFile F) : f.jobIds.Pairwise (· > ·) := by
  refine List.foldlRecOn f.records _ .nil fun header hh r _ => ?_
  split
  · exact insertSortIntList_down hh
  · exact hh

theorem eventLines_records {rs : List (EventRec F)} (hrs : ∀ r ∈ rs, r.Clean) (hl : rs.length < lines) :
    eventLines lines (rs.flatMap (lsb_puteventrec ft)) = rs.map fun r => line ft (r.written.pieces.map .seen) := by
  induction rs generalizing lines with
  | nil =>
    obtain ⟨lines, rfl⟩ := Nat.exists_eq_add_one_of_ne_zero (Nat.ne_zero_of_lt hl)
    rfl
  | cons r rs ih =>
    obtain ⟨lines, rfl⟩ := Nat.exists_eq_add_one_of_ne_zero (Nat.ne_zero_of_lt hl)
    rw [eventLines, flatMap_cons, getNextLine, getNextLineC_put (hrs r (by simp))]
    exact congrArg (List.cons _) (ih (fun r' hr' => hrs r' (by simp [hr'])) (by simpa using hl))

/-- The header of the file leaves a blank line behind its time. -/
theorem eventLines_blanks (blanks : List Char) (hb : ∀ c ∈ blanks, c = ' ') {rs : List (EventRec F)}
    (hrs : ∀ r ∈ rs, r.Clean) (hl : rs.length < lines) :
    eventLines lines (blanks ++ '\n' :: rs.flatMap (lsb_puteventrec ft)) =
      rs.map fun r => line ft (r.written.pieces.map .seen) := by
  have hn : ∀ rest, getNextLine (blanks ++ '\n' :: rest) = getNextLineC (blanks.length + rest.length + 1) rest := by
    intro rest
    rw [getNextLine, getNextLineC_blanks hb]
    congr 1
    simp
    omega
  rw [← eventLines_records hrs hl]
  obtain ⟨lines, rfl⟩ := Nat.exists_eq_add_one_of_ne_zero (Nat.ne_zero_of_lt hl)
  rw [eventLines, eventLines, hn, getNextLine]
  cases rs with
  | nil => rfl
  | cons r rs => rw [flatMap_cons, getNextLineC_put (hrs r (by simp)), getNextLineC_put (hrs r (by simp))]

theorem length_le_contents (ft : FloatText F) {rs : List (EventRec F)} (hrs : ∀ r ∈ rs, r.Clean) :
    rs.length ≤ (rs.flatMap (lsb_puteventrec ft)).length := by
  induction rs with
  | nil => simp
  | cons r rs ih =>
    obtain ⟨body, -, hput⟩ := (oneLine_iff ft r).mpr (hrs r (by simp))
    have hrest := ih fun r' hr' => hrs r' (by simp [hr'])
    simp only [flatMap_cons, length_append, length_cons, hput, length_nil]
    omega

theorem getJobIdIndexFromEventFile_contents (f : EventFile F) :
    getJobIdIndexFromEventFile (f.contents ft) = (f.jobIds, f.timeStamp) := by
  have hs : scanInt (decimal f.timeStamp ++ (replicate 23 ' ' ++ '\n' :: f.records.flatMap (lsb_puteventrec ft))) =
      some (f.timeStamp, replicate 23 ' ' ++ '\n' :: f.records.flatMap (lsb_puteventrec ft)) :=
    scanInt_decimal _ (by simp [Stops, replicate_succ])
  have hl := length_le_contents ft f.clean
  unfold getJobIdIndexFromEventFile EventFile.contents
  simp only [hs, Option.getD_some]
  rw [eventLines_blanks _ (by simp) f.clean (by simp only [length_append, length_cons]; omega), foldl_map]
  congr 1
  refine foldl_ext _ _ _ fun header r hr => ?_
  exact insertEventJob_line (f.versioned r hr) header

/-- The archived file with the number `i`, from the oldest to the newest. -/
def fileOf (ft : FloatText F) (archives : List (EventFile F)) (i : Nat) : List Char :=
  (archives[archives.length - i]?).elim [] (EventFile.contents ft)

inductive Indexed (ft : FloatText F) (order : ArgOrder) : List (EventFile F) → IndexFile → Prop where
  | anew {archives : List (EventFile F)} {index : Option IndexFile} (h : ∀ old ∈ index, archives.length ≠ old.rows + 1) :
      Indexed ft order archives (updateJobIdIndexFile order index (fileOf ft archives) archives.length)
  | added {archives : List (EventFile F)} {index : IndexFile} (f : EventFile F) (h : Indexed ft order archives index) :
      Indexed ft order (archives ++ [f])
        (updateJobIdIndexFile order (some index) (fileOf ft (archives ++ [f])) (archives.length + 1))

def EventFile.row (order : ArgOrder) (f : EventFile F) : List Char :=
  writeJobIdIndexToIndexFile order f.jobIds f.timeStamp

theorem addRows_eq (order : ArgOrder) (archives : List (EventFile F)) (hk : k ≤ archives.length)
    (index : IndexFile) : addRows order (fileOf ft archives) k index =
      ⟨index.rows + k, index.body ++ (archives.drop (archives.length - k)).flatMap (EventFile.row order)⟩ := by
  induction k generalizing index with
  | zero => simp [addRows]
  | succ k ih =>
    have hlt : archives.length - (k + 1) < archives.length := by omega
    have hf : fileOf ft archives (k + 1) = (archives.get ⟨_, hlt⟩).contents ft := by
      simp [fileOf, List.getElem?_eq_getElem hlt]
    have hd : archives.drop (archives.length - (k + 1)) =
        archives.get ⟨_, hlt⟩ :: archives.drop (archives.length - k) := by
      rw [drop_eq_getElem_cons hlt, show archives.length - (k + 1) + 1 = archives.length - k by omega]
      rfl
    rw [addRows, hf, getJobIdIndexFromEventFile_contents]
    simp only [ih (by omega), hd, flatMap_cons, EventFile.row, append_assoc, IndexFile.mk.injEq, and_true]
    omega

theorem Indexed.eq {order : ArgOrder} {archives : List (EventFile F)} {index : IndexFile}
    (h : Indexed ft order archives index) : index = ⟨archives.length, archives.flatMap (EventFile.row order)⟩ := by
  induction h with
  | @anew archives index h =>
    have ha : updateJobIdIndexFile order index (fileOf ft archives) archives.length =
        addRows order (fileOf ft archives) archives.length ⟨0, []⟩ := by
      cases index with
      | none => rfl
      | some old => exact if_neg (h old rfl)
    rw [ha, addRows_eq order archives le_rfl]
    simp
  | @added archives index f h ih =>
    subst ih
    rw [updateJobIdIndexFile, if_pos rfl, addRows_eq order (archives ++ [f]) (by simp)]
    simp

def requested (jobIds : List Int) : List Int := jobIds.map LSB_ARRAY_JOBID

def EventFile.hasRequested (jobIds : List Int) (f : EventFile F) : Bool :=
  f.records.any fun r => (payloadJob r.type r.eventLog).any fun jobId => jobId ∈ requested jobIds

def EventFile.bound (order : ArgOrder) (f : EventFile F) : Option Int :=
  match order with
  | .leftToRight => f.jobIds.head?
  | .rightToLeft => f.jobIds.getLast?

def EventFile.found (order : ArgOrder) (jobIds : List Int) (f : EventFile F) : Bool :=
  (f.bound order).any fun jobId => jobId ∈ requested jobIds

/-- With one bound for both ends of the row, no other id is searched for. -/
theorem any_hasJob (order : ArgOrder) (jobIds : List Int) (f : EventFile F) :
    (jobIds.any fun jobId => IndexRow.hasJob ⟨boundOf order f.jobIds, boundOf order f.jobIds, f.jobIds⟩
      (LSB_ARRAY_JOBID jobId)) = f.found order jobIds := by
  have hbou : ∀ jobId, IndexRow.hasJob ⟨boundOf order f.jobIds, boundOf order f.jobIds, f.jobIds⟩ jobId = true ↔
      f.bound order = some jobId := by
    intro jobId
    have hmem : f.bound order = some jobId ↔ jobId = boundOf order f.jobIds ∧ jobId ∈ f.jobIds := by
      cases order with
      | leftToRight =>
        cases hi : f.jobIds with
        | nil => simp [EventFile.bound, hi]
        | cons id ids =>
          simp only [EventFile.bound, boundOf, hi, List.head?_cons, Option.some.injEq, Option.getD_some]
          exact ⟨fun h => ⟨h.symm, by simp [h]⟩, fun h => h.1.symm⟩
      | rightToLeft =>
        obtain hi | ⟨init, last, hi⟩ := f.jobIds.eq_nil_or_concat'
        · simp [EventFile.bound, hi]
        · simp only [EventFile.bound, boundOf, hi, List.getLast?_concat, Option.some.injEq, Option.getD_some]
          exact ⟨fun h => ⟨h.symm, by simp [h]⟩, fun h => h.1.symm⟩
    rw [hmem, ← searchDown_eq_true f.jobIds_down]
    simp only [IndexRow.hasJob]
    split
    · next h => exact iff_of_false (by simp) fun h' => by omega
    · next h => exact ⟨fun hs => ⟨by omega, hs⟩, fun hs => hs.2⟩
  rw [Bool.eq_iff_iff, any_eq_true, EventFile.found, Option.any_eq_true]
  constructor
  · rintro ⟨jobId, hj, hh⟩
    exact ⟨_, (hbou _).mp hh, decide_eq_true (mem_map_of_mem hj)⟩
  · rintro ⟨bound, hb, hr⟩
    obtain ⟨jobId, hj, rfl⟩ := mem_map.mp (of_decide_eq_true hr)
    exact ⟨jobId, hj, (hbou _).mpr hb⟩

def numbered (p : EventFile F → Bool) : List (EventFile F) → List Int
  | [] => []
  | f :: fs => if p f then (fs.length + 1 : Int) :: numbered p fs else numbered p fs

/-- The calls end at the last row without reading it. -/
def returned (p : EventFile F → Bool) : List (EventFile F) → List Int
  | [] => []
  | f :: fs => if fs ≠ [] ∧ p f then (fs.length + 1 : Int) :: returned p fs else returned p fs

structure Ahead (order : ArgOrder) (fs : List (EventFile F)) (indexS : JobIdIndexS) : Prop where
  fp : indexS.fp = fs.flatMap (EventFile.row order)
  totalRows : indexS.totalRows = indexS.curRow + fs.length

theorem rows_no_space (order : ArgOrder) (fs : List (EventFile F)) :
    (fs.flatMap (EventFile.row order)).dropWhile isSpace = fs.flatMap (EventFile.row order) := by
  cases fs with
  | nil => rfl
  | cons f fs => simp [EventFile.row, writeJobIdIndexToIndexFile, isSpace]

theorem length_le_rows (order : ArgOrder) (fs : List (EventFile F)) :
    fs.length ≤ (fs.flatMap (EventFile.row order)).length := by
  induction fs with
  | nil => simp
  | cons f fs ih =>
    simp only [flatMap_cons, length_append, length_cons, EventFile.row, writeJobIdIndexToIndexFile] at ih ⊢
    omega

/-- A call returns 0 at the last row, or a file and leaves the rows behind it. -/
theorem nextFileNum_cases {order : ArgOrder} (jobIds : List Int) {fs : List (EventFile F)} (hne : fs ≠ [])
    {indexS : JobIdIndexS} (h : Ahead order fs indexS) {turns : Nat} (htur : fs.length ≤ turns) :
    ((nextFileNum jobIds turns indexS).1 = 0 ∧ returned (EventFile.found order jobIds) fs = []) ∨
    ∃ fs' : List (EventFile F), fs' ≠ [] ∧ fs'.length < fs.length ∧ Ahead order fs' (nextFileNum jobIds turns indexS).2 ∧
      (nextFileNum jobIds turns indexS).1 = fs'.length + 1 ∧
      returned (EventFile.found order jobIds) fs = (fs'.length + 1 : Int) :: returned (EventFile.found order jobIds) fs' := by
  induction fs generalizing indexS turns with
  | nil => exact absurd rfl hne
  | cons f fs ih =>
    obtain ⟨turns, rfl⟩ := Nat.exists_eq_add_one_of_ne_zero (Nat.ne_zero_of_lt htur)
    have ht := h.totalRows
    rw [length_cons] at ht
    by_cases hlast : fs = []
    · subst hlast
      refine .inl ⟨?_, by simp [returned]⟩
      rw [nextFileNum, if_pos (by simpa using ht.symm)]
    have hl : 0 < fs.length := length_pos_iff.mpr hlast
    have hs : scanRow indexS.fp = some (⟨boundOf order f.jobIds, boundOf order f.jobIds, f.jobIds⟩,
        fs.flatMap (EventFile.row order)) := by
      rw [h.fp, flatMap_cons]
      exact scanRow_write order f.jobIds f.timeStamp (rows_no_space order fs)
    have ha : Ahead order fs ⟨fs.flatMap (EventFile.row order), indexS.totalRows, indexS.curRow + 1⟩ :=
      ⟨rfl, by simp only; omega⟩
    rw [nextFileNum, if_neg (by omega), hs]
    simp only [any_hasJob, returned, hlast, ne_eq, not_false_iff, true_and]
    by_cases hf : f.found order jobIds
    · refine .inr ⟨fs, hlast, by simp, ?_⟩
      simp only [hf, if_true]
      exact ⟨ha, by omega, trivial⟩
    · simp only [hf, Bool.false_eq_true, if_false]
      obtain he | ⟨fs', hne', hlt, hr⟩ := ih hlast ha (by simpa using htur)
      · exact .inl he
      · exact .inr ⟨fs', hne', by simp; omega, hr⟩

theorem fileNums_eq (jobIds : List Int) (hne : fs ≠ []) (h : Ahead order fs indexS) (hc : fs.length ≤ calls) :
    fileNums jobIds calls indexS = returned (EventFile.found order jobIds) fs ++ [0] := by
  have hpos : 0 < fs.length := length_pos_iff.mpr hne
  induction calls generalizing fs indexS with
  | zero => omega
  | succ calls ih =>
    have ht : fs.length ≤ indexS.fp.length + 1 := by
      rw [h.fp]
      exact (length_le_rows order fs).trans (Nat.le_succ _)
    have hc := nextFileNum_cases jobIds hne h ht
    rw [← getNextFileNumFromIndexS] at hc
    simp only [fileNums]
    obtain ⟨hn, he⟩ | ⟨fs', hne', hlt, ha, hn, hr⟩ := hc
    · rw [if_pos (by omega), hn, he, nil_append]
    · rw [if_neg (by omega), hn, hr, ih hne' ha (by omega) (length_pos_iff.mpr hne'), cons_append]

theorem numbered_le : ∀ n ∈ numbered p fs, n ≤ fs.length := by
  induction fs with
  | nil => simp [numbered]
  | cons f fs ih =>
    intro n hn
    rw [length_cons, Nat.cast_add_one]
    unfold numbered at hn
    split at hn
    · rcases mem_cons.mp hn with rfl | hn
      · exact le_rfl
      · exact (ih n hn).trans (by omega)
    · exact (ih n hn).trans (by omega)

theorem returned_sublist (p : EventFile F → Bool) (fs : List (EventFile F)) : (returned p fs).Sublist (numbered p fs) := by
  induction fs with
  | nil => exact .slnil
  | cons f fs ih =>
    by_cases hp : p f
    · by_cases hlast : fs = []
      · simp [returned, numbered, hp, hlast]
      · simpa [returned, numbered, hp, hlast] using ih
    · simpa [returned, numbered, hp] using ih

/-- The numbers differ, so two selections agree only if they agree on each file. -/
theorem returned_eq_numbered_iff (p q : EventFile F → Bool) (fs : List (EventFile F)) :
    returned p fs = numbered q fs ↔ (∀ f ∈ fs.dropLast, q f = p f) ∧ ∀ f ∈ fs.getLast?, q f = false := by
  induction fs with
  | nil => simp [returned, numbered]
  | cons f fs ih =>
    by_cases hlast : fs = []
    · subst hlast
      cases hq : q f <;> simp [returned, numbered, hq]
    · have hn : (fs.length + 1 : Int) ∉ numbered q fs := fun h => absurd (numbered_le _ h) (by omega)
      have hr : (fs.length + 1 : Int) ∉ returned p fs := fun h =>
        absurd (numbered_le _ ((returned_sublist p fs).subset h)) (by omega)
      obtain ⟨f', fs', rfl⟩ := exists_cons_of_ne_nil hlast
      rw [dropLast_cons_cons, List.getLast?_cons_cons, forall_mem_cons, and_assoc, ← ih]
      rw [returned, numbered]
      cases hp : p f <;> cases hq : q f
      · simp
      · simp only [Bool.false_eq_true, and_false, if_false, if_true, Bool.true_eq_false, false_and, iff_false]
        exact fun h => hr (h ▸ mem_cons_self)
      · simp only [ne_eq, hlast, not_false_iff, and_self, if_true, Bool.false_eq_true, if_false, false_and, iff_false]
        exact fun h => hn (h ▸ mem_cons_self)
      · simp

/-- The files with a requested job come, oldest first, iff the bounds tell which, the newest
apart. -/
theorem fileNums_iff {order : ArgOrder} (jobIds : List Int) {archives : List (EventFile F)} {index : IndexFile}
    (h : Indexed ft order archives index) : fileNums jobIds (archives.length + 1) (initJobIdIndexS index) =
        numbered (EventFile.hasRequested jobIds) archives ++ [0] ↔
      archives ≠ [] ∧ (∀ f ∈ archives.dropLast, f.hasRequested jobIds = f.found order jobIds) ∧
        ∀ f ∈ archives.getLast?, f.hasRequested jobIds = false := by
  rw [h.eq]
  by_cases hne : archives = []
  · subst hne
    simp [fileNums, getNextFileNumFromIndexS, nextFileNum, initJobIdIndexS, scanRow, numbered]
  · have ha : Ahead order archives
        (initJobIdIndexS ⟨archives.length, archives.flatMap (EventFile.row order)⟩) := ⟨rfl, by simp [initJobIdIndexS]⟩
    rw [fileNums_eq jobIds hne ha (Nat.le_succ _), append_cancel_right_eq, returned_eq_numbered_iff]
    simp [hne]

end

def cleaned (jobId : Int) : EventRec Int where
  version := "20".toList
  type := .jobClean
  eventTime := 1400000000
  eventLog := (⟨jobId, 0⟩ : JobCleanLog)

theorem cleaned_clean (jobId : Int) : (cleaned jobId).Clean where
  ends := by simp [cleaned]
  strings := show ∀ str ∈ [EventType.jobClean.etype, "20".toList], '\n' ∉ str by decide

def archived (jobIds : List Int) : EventFile Int where
  timeStamp := 1400000000
  records := jobIds.map cleaned
  clean := by
    intro r hr
    obtain ⟨jobId, -, rfl⟩ := mem_map.mp hr
    exact cleaned_clean jobId
  versioned := by
    intro r hr
    obtain ⟨jobId, -, rfl⟩ := mem_map.mp hr
    exact ⟨by simp [cleaned], by simp [cleaned, MAX_VERSION_LEN]⟩

def firstIndex (order : ArgOrder) (archives : List (EventFile Int)) : IndexFile :=
  updateJobIdIndexFile order none (fileOf .whole archives) archives.length

def twoFiles : List (EventFile Int) := [archived [101], archived [102]]

/-- The older of two files is found by its only job. -/
theorem fileNums_oldest : fileNums [101] (twoFiles.length + 1) (initJobIdIndexS (firstIndex .rightToLeft twoFiles)) =
    numbered (EventFile.hasRequested [101]) twoFiles ++ [0] := by
  have hi : Indexed .whole .rightToLeft twoFiles (firstIndex .rightToLeft twoFiles) :=
    @Indexed.anew _ _ _ _ none (by simp)
  exact (fileNums_iff [101] hi).mpr ⟨by simp [twoFiles], by decide +kernel, by decide +kernel⟩

/-- The only archived file is missed, and so is an older one for a job between its bounds. -/
theorem fileNums_missed : fileNums [101] 2 (initJobIdIndexS (firstIndex .rightToLeft [archived [101]])) ≠
      numbered (EventFile.hasRequested [101]) [archived [101]] ++ [0] ∧
    fileNums [102] 3 (initJobIdIndexS (firstIndex .rightToLeft [archived [101, 102, 103], archived [104]])) ≠
      numbered (EventFile.hasRequested [102]) [archived [101, 102, 103], archived [104]] ++ [0] ∧
    fileNums [102] 3 (initJobIdIndexS (firstIndex .leftToRight [archived [101, 102, 103], archived [104]])) ≠
      numbered (EventFile.hasRequested [102]) [archived [101, 102, 103], archived [104]] ++ [0] := by
  decide +kernel

end OpenLava.Log

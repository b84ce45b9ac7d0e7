import OpenLava.Log.Records

/-!
The event log as a sequence of records. `lsb_puteventrec` prints the type, the version and the time of a record in
front of what its writer prints; `lsb_geteventrec` reads the next line and gives it to the reader of its type.
-/

namespace OpenLava.Log

open List Text OptionBits Scan

/-- The types that `lsb_puteventrec` accepts. -/
inductive EventType where
  | jobNew | jobStart | jobStartAccept | jobStatus | jobSwitch | jobMove | queueCtrl | hostCtrl | mbdStart | mbdDie
  | unfulfill | jobFinish | loadIndex | chkpnt | mig | preExecStart | jobModify | jobModify2 | jobAttrSet | jobSignal
  | jobExecute | jobMsg | jobMsgAck | jobRequeue | jobClean | jobSigact | sbdJobStatus | jobForce | logSwitch
  deriving DecidableEq, Repr

/-- The member of `union eventLog` that a type uses. -/
def EventType.Payload (F : Type) : EventType → Type
  | jobNew | jobModify => JobNewLog F
  | jobModify2 => JobModLog
  | preExecStart | jobStart => JobStartLog F
  | jobStartAccept => JobStartAcceptLog
  | jobStatus => JobStatusLog F
  | sbdJobStatus => SbdJobStatusLog
  | jobSwitch => JobSwitchLog
  | jobMove => JobMoveLog
  | queueCtrl => QueueCtrlLog
  | hostCtrl => HostCtrlLog
  | mbdStart => MbdStartLog
  | mbdDie => MbdDieLog
  | unfulfill => UnfulfillLog
  | loadIndex => LoadIndexLog
  | jobFinish => JobFinishLog F
  | chkpnt => ChkpntLog
  | mig => MigLog
  | jobAttrSet => JobAttrSetLog
  | jobSignal => SignalLog
  | jobExecute => JobExecuteLog
  | jobMsg | jobMsgAck => JobMsgLog
  | jobSigact => SigactLog
  | jobRequeue => JobRequeueLog
  | jobClean => JobCleanLog
  | jobForce => JobForceRequestLog
  | logSwitch => LogSwitchLog

structure EventRec (F : Type) where
  version : List Char
  type : EventType
  eventTime : Int
  eventLog : type.Payload F

def MAX_VERSION_LEN : Nat := 12

/-- The first switch of `lsb_puteventrec`. -/
def EventType.etype : EventType → List Char
  | jobNew => "JOB_NEW".toList
  | jobStart => "JOB_START".toList
  | jobStartAccept => "JOB_START_ACCEPT".toList
  | jobStatus => "JOB_STATUS".toList
  | jobSwitch => "JOB_SWITCH".toList
  | jobMove => "JOB_MOVE".toList
  | queueCtrl => "QUEUE_CTRL".toList
  | hostCtrl => "HOST_CTRL".toList
  | mbdStart => "MBD_START".toList
  | mbdDie => "MBD_DIE".toList
  | unfulfill => "UNFULFILL".toList
  | jobFinish => "JOB_FINISH".toList
  | loadIndex => "LOAD_INDEX".toList
  | chkpnt => "CHKPNT".toList
  | mig => "MIG".toList
  | preExecStart => "PRE_EXEC_START".toList
  | jobModify => "JOB_MODIFY".toList
  | jobModify2 => "JOB_MODIFY2".toList
  | jobAttrSet => "JOB_ATTR_SET".toList
  | jobSignal => "JOB_SIGNAL".toList
  | jobExecute => "JOB_EXECUTE".toList
  | jobMsg => "JOB_MSG".toList
  | jobMsgAck => "JOB_MSG_ACK".toList
  | jobRequeue => "JOB_REQUEUE".toList
  | jobClean => "JOB_CLEAN".toList
  | jobSigact => "JOB_SIGACT".toList
  | sbdJobStatus => "SBD_JOB_STATUS".toList
  | jobForce => "JOB_FORCE".toList
  | logSwitch => "LOG_SWITCH".toList

/-- The comparisons of `getEventTypeAndKind`, in their order. -/
def eventTypes : List (List Char × EventType) := [
  ("JOB_NEW".toList, .jobNew), ("JOB_START".toList, .jobStart), ("JOB_START_ACCEPT".toList, .jobStartAccept),
  ("JOB_STATUS".toList, .jobStatus), ("SBD_JOB_STATUS".toList, .sbdJobStatus), ("JOB_EXECUTE".toList, .jobExecute),
  ("JOB_CLEAN".toList, .jobClean), ("JOB_SWITCH".toList, .jobSwitch), ("JOB_MOVE".toList, .jobMove),
  ("JOB_FINISH".toList, .jobFinish), ("LOAD_INDEX".toList, .loadIndex), ("CHKPNT".toList, .chkpnt),
  ("MIG".toList, .mig), ("PRE_EXEC_START".toList, .preExecStart), ("JOB_MODIFY".toList, .jobModify),
  ("JOB_MODIFY2".toList, .jobModify2), ("JOB_ATTR_SET".toList, .jobAttrSet), ("QUEUE_CTRL".toList, .queueCtrl),
  ("HOST_CTRL".toList, .hostCtrl), ("MBD_START".toList, .mbdStart), ("MBD_DIE".toList, .mbdDie),
  ("UNFULFILL".toList, .unfulfill), ("JOB_SIGNAL".toList, .jobSignal), ("JOB_MSG".toList, .jobMsg),
  ("JOB_MSG_ACK".toList, .jobMsgAck), ("JOB_REQUEUE".toList, .jobRequeue), ("JOB_SIGACT".toList, .jobSigact),
  ("JOB_FORCE".toList, .jobForce), ("LOG_SWITCH".toList, .logSwitch), ("LOG_SWITCH".toList, .logSwitch)]

/-- `EVENT_JOB_RELATED` -/
def EventType.jobRelated : EventType → Bool
  | jobNew | jobStart | jobStartAccept | jobStatus | sbdJobStatus | jobSwitch | jobMove | jobFinish | chkpnt | mig
  | preExecStart | jobModify | jobModify2 | jobAttrSet | jobSignal | jobExecute | jobMsg | jobMsgAck | jobRequeue
  | jobClean | jobSigact | jobForce => true
  | queueCtrl | hostCtrl | mbdStart | mbdDie | unfulfill | loadIndex | logSwitch => false

/-- The type and whether it is `EVENT_JOB_RELATED`. -/
def getEventTypeAndKind (typeStr : List Char) : Option (EventType × Bool) :=
  (eventTypes.lookup typeStr).map fun type => (type, type.jobRelated)

theorem getEventTypeAndKind_etype (type : EventType) : getEventTypeAndKind type.etype = some (type, type.jobRelated) := by
  cases type <;> decide

section

variable {F : Type}

/-- The second switch of `lsb_puteventrec`. -/
def writeEventLog : (type : EventType) → type.Payload F → Written F
  | .jobNew, l | .jobModify, l => writeJobNew l
  | .jobModify2, l => writeJobMod l
  | .preExecStart, l | .jobStart, l => writeJobStart l
  | .jobStartAccept, l => writeJobStartAccept l
  | .jobStatus, l => writeJobStatus l
  | .sbdJobStatus, l => writeSbdJobStatus l
  | .jobSwitch, l => writeJobSwitch l
  | .jobMove, l => writeJobMove l
  | .queueCtrl, l => writeQueueCtrl l
  | .hostCtrl, l => writeHostCtrl l
  | .mbdStart, l => writeMbdStart l
  | .mbdDie, l => writeMbdDie l
  | .unfulfill, l => writeUnfulfill l
  | .loadIndex, l => writeLoadIndex l
  | .jobFinish, l => writeJobFinish l
  | .chkpnt, l => writeChkpnt l
  | .mig, l => writeMig l
  | .jobAttrSet, l => writeJobAttrSet l
  | .jobSignal, l => writeJobSignal l
  | .jobExecute, l => writeJobExecute l
  | .jobMsg, l | .jobMsgAck, l => writeJobMsg l
  | .jobSigact, l => writeJobSigAct l
  | .jobRequeue, l => writeJobRqueue l
  | .jobClean, l => writeJobClean l
  | .jobForce, l => writeJobForce l
  | .logSwitch, l => writeLogSwitch l

def EventRec.written (r : EventRec F) : Written F where
  pieces := [.raw r.type.etype, .raw r.version, .int (toInt r.eventTime)] ++ (writeEventLog r.type r.eventLog).pieces
  ending := (writeEventLog r.type r.eventLog).ending

def lsb_puteventrec (ft : FloatText F) (r : EventRec F) : List Char := line ft r.written.pieces ++ r.written.ending

end

section

variable {F : Type} (ft : FloatText F)

def readEventRecord (eventTime : Int) : (type : EventType) → Scan (type.Payload F)
  | .jobNew | .jobModify => readJobNew ft
  | .jobModify2 => readJobMod
  | .preExecStart | .jobStart => readJobStart ft
  | .jobStartAccept => readJobStartAccept
  | .jobStatus => readJobStatus ft
  | .sbdJobStatus => readSbdJobStatus
  | .jobSwitch => readJobSwitch
  | .jobMove => readJobMove
  | .queueCtrl => readQueueCtrl
  | .hostCtrl => readHostCtrl
  | .mbdStart => readMbdStart
  | .mbdDie => readMbdDie
  | .unfulfill => readUnfulfill
  | .loadIndex => readLoadIndex
  | .jobFinish => readJobFinish ft eventTime
  | .chkpnt => readChkpnt
  | .mig => readMig
  | .jobAttrSet => readJobAttrSet
  | .jobSignal => readJobSignal
  | .jobExecute => readJobExecute
  | .jobMsg | .jobMsgAck => readJobMsg
  | .jobSigact => readJobSigAct
  | .jobRequeue => readJobRequeue
  | .jobClean => readJobClean
  | .jobForce => readJobForce
  | .logSwitch => readLogSwitch

/-- The values of `lsberrno`; `record` is what a reader returns. -/
inductive GetError where
  | eof
  | unknownEvent
  | record (e : ReadError)
  deriving DecidableEq, Repr

def headName (maxLen : Nat) : Scan (List Char) := do
  let name ← strip
  let line ← get
  if line ≠ [] ∧ name.length < maxLen then
    skip
    return name
  else throw .eventFormat

structure EventHead where
  (etype version : List Char)
  eventTime : Int

/-- `positive` says whether `atof`, which is libc's, gives more than 0. -/
def readEventHead (positive : List Char → Bool) : Scan EventHead := do
  let etype ← headName MAX_LSB_NAME_LEN
  let version ← headName MAX_VERSION_LEN
  if positive version then
    let eventTime ← int1
    return { etype, version, eventTime }
  else throw .eventFormat

variable (positive : List Char → Bool)

/-- `lsb_geteventrec_ex` behind the reading of the line. -/
def readEventLine (line : List Char) : Except GetError (EventRec F) :=
  match (readEventHead positive).run line with
  | .error e => .error (.record e)
  | .ok (head, line) =>
    match getEventTypeAndKind head.etype with
    | none => .error .unknownEvent
    | some (type, _) =>
      match (readEventRecord ft head.eventTime type).run line with
      | .error e => .error (.record e)
      | .ok (eventLog, _) => .ok { version := head.version, type, eventTime := head.eventTime, eventLog }

def nextEventLine : Nat → List Char → Option (List Char) × List Char
  | 0, fp => (none, fp)
  | lines + 1, fp =>
    match getNextLine fp with
    | (none, fp) => (none, fp)
    | (some line, fp) => if line.head? = some '#' then nextEventLine lines fp else (some line, fp)

def lsb_geteventrec (fp : List Char) : Except GetError (EventRec F) × List Char :=
  match nextEventLine (fp.length + 1) fp with
  | (none, fp) => (.error .eof, fp)
  | (some line, fp) => (readEventLine ft positive line, fp)

/-- What a number of calls of `lsb_geteventrec` return. -/
def getEvents : Nat → List Char → List (Except GetError (EventRec F))
  | 0, _ => []
  | calls + 1, fp =>
    (lsb_geteventrec ft positive fp).1 :: getEvents calls (lsb_geteventrec ft positive fp).2

end

section

variable {F : Type}

def OneLine (text : List Char) : Prop := ∃ body, '\n' ∉ body ∧ text = body ++ ['\n']

theorem ending_cases (type : EventType) (l : type.Payload F) :
    if type = .sbdJobStatus then (writeEventLog type l).ending = []
    else ∃ blanks, (∀ c ∈ blanks, c = ' ') ∧ (writeEventLog type l).ending = blanks ++ ['\n'] := by
  have hn : ∃ blanks : List Char, (∀ c ∈ blanks, c = ' ') ∧ ['\n'] = blanks ++ ['\n'] := ⟨[], by simp, rfl⟩
  have ho : ∃ blanks : List Char, (∀ c ∈ blanks, c = ' ') ∧ [' ', '\n'] = blanks ++ ['\n'] := ⟨[' '], by simp, rfl⟩
  cases type with
  | sbdJobStatus => rfl
  | jobAttrSet | logSwitch => exact ho
  | _ => exact hn

def Printed (pieces : List (Piece F)) : Prop := ∃ p, pieces.getLast? = some p ∧ p ≠ .nothing

theorem printed_concat (front : List (Piece F)) (hp : p ≠ .nothing) : Printed (front ++ [p]) :=
  ⟨p, by simp, hp⟩

theorem Printed.append_left (h : Printed ps) (front : List (Piece F)) : Printed (front ++ ps) := by
  obtain ⟨p, hp, hne⟩ := h
  exact ⟨p, by simp [List.getLast?_append, hp], hne⟩

theorem Printed.append_shown (h : Printed ps) (c : Bool) (hp : p ≠ .nothing) : Printed (ps ++ shown c [p]) := by
  cases c with
  | false => simpa [shown] using h
  | true => exact printed_concat ps hp

theorem Printed.append_qstrs (h : Printed ps) (strs : List (List Char)) : Printed (ps ++ qstrs strs) := by
  obtain rfl | ⟨init, str, rfl⟩ := strs.eq_nil_or_concat'
  · simpa [qstrs] using h
  · rw [qstrs, flatMap_append, ← append_assoc]
    exact printed_concat _ (by simp)

theorem printed_jobMod (l : JobModLog) : Printed (writeJobMod (F := F) l).pieces := by
  have hmust : Printed [.qstr l.schedHostType, (.int l.delOptions2.toInt : Piece F)] := printed_concat [_] (by simp)
  have ht := ((hmust.append_shown (has l.options2 SUB2_IN_FILE_SPOOL) (p := .qstr l.inFileSpool) (by simp)).append_shown
    (has l.options2 SUB2_JOB_CMD_SPOOL) (p := .qstr l.commandSpool) (by simp)).append_shown
    (has l.options2 SUB2_JOB_PRIORITY) (p := .int l.userPriority) (by simp)
  simp only [append_assoc] at ht
  simp only [writeJobMod, ended, flatten_cons, flatten_nil, append_nil, optStr]
  repeat first | exact ht | refine Printed.append_left ?_ _

theorem printed_eventLog (type : EventType) (l : type.Payload F) : Printed (writeEventLog type l).pieces := by
  cases type with
  | jobModify2 => exact printed_jobMod l
  | loadIndex =>
    have hc : Printed [(.int (LoadIndexLog.name l).length : Piece F)] := printed_concat [] (by simp)
    simpa [writeEventLog, writeLoadIndex, ended] using hc.append_qstrs (LoadIndexLog.name l)
  | jobNew | jobModify =>
    simp [Printed, writeEventLog, writeJobNew, JobNewLog.tail, List.getLast?_append, List.getLast?_cons]
  | _ =>
    simp [Printed, writeEventLog, ended, writeJobStart, writeJobStartAccept, writeJobStatus, writeSbdJobStatus,
      writeJobSwitch, writeJobMove, writeQueueCtrl, writeHostCtrl, writeMbdStart, writeMbdDie, writeUnfulfill,
      writeJobFinish, writeChkpnt, writeMig, writeJobAttrSet, writeJobSignal, writeJobExecute, writeJobMsg,
      writeJobSigAct, writeJobRqueue, writeJobClean, writeJobForce, writeLogSwitch, List.getLast?_append,
      List.getLast?_cons]

structure EventRec.Clean (r : EventRec F) : Prop where
  ends : r.type ≠ .sbdJobStatus
  strings : ∀ str ∈ r.written.pieces.flatMap Piece.strings, '\n' ∉ str

variable {ft : FloatText F}

theorem newline_mem_line : '\n' ∈ line ft (p :: ps) ↔ ∃ str ∈ (p :: ps).flatMap Piece.strings, '\n' ∈ str := by
  have ht : '\n' ∈ text ft (p :: ps) ↔ _ := newline_mem_text
  rw [← ht, text_cons, line_cons, mem_cons]
  exact (or_iff_right (by decide)).symm

/-- The last character of a line that is left open is a digit. -/
theorem not_oneLine_of_sbdJobStatus (hr : r.type = .sbdJobStatus) : ¬ OneLine (lsb_puteventrec ft r) := by
  obtain ⟨version, type, eventTime, l⟩ := r
  subst hr
  rintro ⟨body, -, ht⟩
  obtain ⟨c, hc, -⟩ := decimal_last (SbdJobStatusLog.idx l)
  have hlast : (lsb_puteventrec ft ⟨version, .sbdJobStatus, eventTime, l⟩).getLast? = some c := by
    simp [lsb_puteventrec, EventRec.written, writeEventLog, writeSbdJobStatus, line_cons, text_cons, Piece.body,
      List.getLast?_append, List.getLast?_cons, hc]
  rw [ht, List.getLast?_concat, Option.some.injEq] at hlast
  exact not_newline_of_plain (decimal_plain _) (hlast ▸ mem_of_getLast? hc)

theorem put_eq (ft : FloatText F) (hr : r.type ≠ .sbdJobStatus) :
    ∃ blanks, (∀ c ∈ blanks, c = ' ') ∧ lsb_puteventrec ft r = (line ft r.written.pieces ++ blanks) ++ ['\n'] := by
  have he := ending_cases r.type r.eventLog
  rw [if_neg hr] at he
  obtain ⟨blanks, hb, he⟩ := he
  exact ⟨blanks, hb, by rw [lsb_puteventrec, EventRec.written, he, append_assoc]⟩

theorem oneLine_iff (ft : FloatText F) (r : EventRec F) : OneLine (lsb_puteventrec ft r) ↔ r.Clean := by
  by_cases hr : r.type = .sbdJobStatus
  · exact iff_of_false (not_oneLine_of_sbdJobStatus hr) fun h => h.ends hr
  obtain ⟨blanks, hb, hput⟩ := put_eq ft hr
  have hb : '\n' ∉ blanks := fun h => absurd (hb _ h) (by decide)
  have hbody : '\n' ∈ line ft r.written.pieces ↔ ∃ str ∈ r.written.pieces.flatMap Piece.strings, '\n' ∈ str :=
    newline_mem_line
  rw [hput]
  constructor
  · rintro ⟨body, hnew, heq⟩
    obtain rfl := append_cancel_right heq
    refine ⟨hr, fun str hs hn => hnew (mem_append_left _ ?_)⟩
    exact hbody.mpr ⟨str, hs, hn⟩
  · intro hc
    refine ⟨_, fun hn => ?_, rfl⟩
    obtain ⟨str, hs, hn⟩ := hbody.mp ((mem_append.mp hn).resolve_right hb)
    exact hc.strings str hs hn

theorem rdropWhile_blanks (front : List Char) (hb : ∀ c ∈ blanks, c = ' ') :
    (front ++ blanks).rdropWhile (· = ' ') = front.rdropWhile (· = ' ') := by
  induction blanks using List.reverseRecOn with
  | nil => rw [append_nil]
  | append_singleton blanks c ih =>
    rw [← append_assoc, rdropWhile_concat_pos _ _ _ (by simpa using hb c (by simp))]
    exact ih fun d hd => hb d (by simp [hd])

theorem trimmed_blanks (front : List Char) (hb : ∀ c ∈ blanks, c = ' ') :
    trimmed (front ++ blanks) = trimmed front := by
  have hmap : blanks.map blanked = blanks := map_blanked_eq_self fun c hc _ => hb c hc
  rw [trimmed, map_append, hmap, rdropWhile_blanks _ hb, trimmed]

theorem trimmed_line (h : Printed ps) : trimmed (line ft (p :: ps)) = line ft ((p :: ps).map .seen) := by
  obtain ⟨q, hq, hne⟩ := h
  rw [line_cons, trimmed_text _ hq hne, map_cons, line_cons, body_seen]

theorem head_line (ft : FloatText F) (r : EventRec F) : (line ft (r.written.pieces.map .seen)).head? = some '"' := by
  simp [EventRec.written, line_cons, Piece.seen, Piece.body]

theorem getNextLineC_put (hr : r.Clean) (rest : List Char) (calls : Nat) :
    getNextLineC (calls + 1) (lsb_puteventrec ft r ++ rest) = (some (line ft (r.written.pieces.map .seen)), rest) := by
  obtain ⟨blanks, hb, hput⟩ := put_eq ft hr.ends
  have hpri : Printed ([.raw r.version, .int (toInt r.eventTime)] ++ (writeEventLog r.type r.eventLog).pieces) :=
    (printed_eventLog r.type r.eventLog).append_left _
  have ht : trimmed (line ft r.written.pieces ++ blanks) = line ft (r.written.pieces.map .seen) := by
    rw [trimmed_blanks _ hb]
    exact trimmed_line hpri
  obtain ⟨body, hn, hb⟩ := (oneLine_iff ft r).mpr hr
  obtain rfl := append_cancel_right (hput.symm.trans hb)
  have hne : trimmed (line ft r.written.pieces ++ blanks) ≠ [] := by
    rw [ht]
    intro h
    simpa [h] using head_line ft r
  rw [hput, append_assoc, singleton_append, getNextLineC_line hn hne, ht]

theorem nextEventLine_put (hr : r.Clean) (rest : List Char) (lines : Nat) :
    nextEventLine (lines + 1) (lsb_puteventrec ft r ++ rest) = (some (line ft (r.written.pieces.map .seen)), rest) := by
  rw [nextEventLine, getNextLine, getNextLineC_put hr]
  simp [head_line]

variable {positive : List Char → Bool}

theorem lsb_geteventrec_put (hr : r.Clean) (rest : List Char) :
    lsb_geteventrec ft positive (lsb_puteventrec ft r ++ rest) =
      (readEventLine ft positive (line ft (r.written.pieces.map .seen)), rest) := by
  rw [lsb_geteventrec, nextEventLine_put hr]

theorem getEvents_put {rs : List (EventRec F)} (hrs : ∀ r ∈ rs, r.Clean) :
    getEvents ft positive (rs.length + 1) (rs.flatMap (lsb_puteventrec ft)) =
      rs.map (fun r => readEventLine ft positive (line ft (r.written.pieces.map .seen))) ++ [.error .eof] := by
  induction rs with
  | nil => rfl
  | cons r rs ih =>
    rw [length_cons, getEvents, flatMap_cons, lsb_geteventrec_put (hrs r (by simp)),
      ih fun r' hr' => hrs r' (by simp [hr'])]
    rfl

theorem etype_plain (type : EventType) :
    type.etype.map blanked = type.etype ∧ '"' ∉ type.etype ∧ type.etype.length < MAX_LSB_NAME_LEN := by
  cases type <;> decide

theorem headName_etype (type : EventType) :
    (headName MAX_LSB_NAME_LEN).run (line ft (Piece.seen (.raw type.etype) :: p :: ps)) =
      .ok (type.etype, line ft (p :: ps)) := by
  obtain ⟨hpla, hq, hl⟩ := etype_plain type
  have hn : text ft (p :: ps) ≠ [] := by simp [text_cons]
  simp only [Piece.seen, hpla, line_raw hq, headName, StateT.run_bind, strip_line, ok_bind, StateT.run_get, pure_bind,
    hn, hl, ne_eq, not_false_iff, and_self, if_true, skip_text]
  rfl

theorem type_of_readEventLine {r y : EventRec F}
    (h : readEventLine ft positive (line ft (r.written.pieces.map .seen)) = .ok y) : y.type = r.type := by
  unfold readEventLine at h
  split at h
  · cases h
  next head rest hh =>
    have he : head.etype = r.type.etype := by
      simp only [readEventHead, EventRec.written, map_cons, cons_append, nil_append, StateT.run_bind,
        headName_etype, ok_bind] at hh
      obtain ⟨⟨version, line1⟩, -, hh⟩ := bind_ok hh
      split at hh
      · obtain ⟨⟨time, line2⟩, -, hh⟩ := bind_ok hh
        exact (congrArg (EventHead.etype ∘ Prod.fst) (Except.ok.inj hh)).symm
      · cases hh
    rw [he, getEventTypeAndKind_etype] at h
    simp only at h
    split at h
    · cases h
    · exact (congrArg EventRec.type (Except.ok.inj h)).symm

/-- Each call hands the line of one record to its reader, which returns no record of another type, and then the log ends.
-/
def ReadOneByOne (ft : FloatText F) (rs : List (EventRec F)) : Prop :=
  ∀ positive, ∃ results : List (Except GetError (EventRec F)),
    getEvents ft positive (rs.length + 1) (rs.flatMap (lsb_puteventrec ft)) = results ++ [.error .eof] ∧
    List.Forall₂ (fun r result => result = readEventLine ft positive (line ft (r.written.pieces.map .seen)) ∧
      ∀ y, result = .ok y → y.type = r.type) rs results

def sbdStatus (jobId : Int) : EventRec Int where
  version := "20".toList
  type := .sbdJobStatus
  eventTime := 1400000000
  eventLog := (⟨jobId, 4, 0, 0, 0, 0, 0, 0, 0, 0, 0, 0⟩ : SbdJobStatusLog)

end

end OpenLava.Log

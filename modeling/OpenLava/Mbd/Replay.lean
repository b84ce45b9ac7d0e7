import OpenLava.Mbd.JobMoves
import OpenLava.Mbd.JobOrder

/-!
# Status records and the end of a replay

When mbatchd starts, the records of its event log are applied to an empty system, without slot counters. At the end the
counters are computed once, from the jobs in the lists.
-/

namespace OpenLava

open Ledger (updateEach)

/-- `jStatus |= JOB_STAT_UNKWN` or `jStatus &= ~JOB_STAT_UNKWN` -/
def JData.withUnkwn (jp : JData) (b : Bool) : JData := jp.withMask { jp.jStatus.mask with unkwn := b }

/-- The branch of `statusJob` for the post-execution end of a job that is DONE. -/
def JData.postFinish (jp : JData) (pdone perr : Bool) : JData :=
  let m := jp.jStatus.mask
  if m.done then jp.withMask { m with pdone := m.pdone || pdone, perr := m.perr || perr } else jp

/-- A status record of the log, `struct jobStatusLog`. -/
structure JobStatusLog where
  jStatus : Mask
  reason : Nat := 0
  endTime : Int := 0
  deriving DecidableEq, Repr

/-- What `replay_newstat` asks: is another zombie left, does `shouldLockJob` hold. -/
structure ReplayEnv where
  (zombieLeft shouldLockJob : Bool := false)
  deriving DecidableEq, Repr

/-- The reason of the record, unless it is the one of a zombie. -/
def JData.recordReason (newStat : JobStatusLog) (jp : JData) : JData :=
  if newStat.reason = EXIT_ZOMBIE_JOB then jp else { jp with newReason := newStat.reason }

def JData.withZombie (jp : JData) (b : Bool) : JData := { jp with jStatus := { jp.jStatus with zombie := b } }

/-- For a record of an exit: the zombie bit, and whether the status is changed. -/
def JData.recordExit (env : ReplayEnv) (newStat : JobStatusLog) (jp : JData) : JData × Bool :=
  if newStat.reason &&& (EXIT_ZOMBIE ||| EXIT_KILL_ZOMBIE) ≠ 0 then (jp.withZombie true, true)
  else if newStat.reason &&& EXIT_RERUN ≠ 0 then ({ jp with newReason := EXIT_RERUN }, true)
  else if newStat.reason &&& EXIT_ZOMBIE_JOB ≠ 0 then
    if env.zombieLeft then (jp, false)
    else
      let jp :=
        if jp.newReason = EXIT_KILL_ZOMBIE ∧ jp.jStatus.zombie then { jp.withZombie false with newReason := 0 } else jp
      (jp, !jp.jobBill.rerunnable)
  else if newStat.reason &&& EXIT_RESTART ≠ 0 then (jp, true)
  else (jp.withZombie false, true)

/-- For a record of a suspension or of the end of the job. -/
def JData.recordEnd (env : ReplayEnv) (newStat : JobStatusLog) (jp : JData) : JData :=
  if newStat.jStatus.isSusp ∧ newStat.jStatus.isStart then
    if jp.newReason &&& SUSP_MBD_LOCK = 0 ∧ env.shouldLockJob then
      { jp with newReason := newStat.reason ||| SUSP_MBD_LOCK }
    else jp
  else if newStat.jStatus.isFinish then { jp with endTime := newStat.endTime }
  else jp

/-- What a record changes in the job before its status, and whether that is changed. -/
def JData.readRecord (env : ReplayEnv) (newStat : JobStatusLog) (jp : JData) : JData × Bool :=
  let jp := jp.recordReason newStat
  let (jp, change) := if newStat.jStatus.exit then jp.recordExit env newStat else (jp, true)
  if change then (jp.recordEnd env newStat, true) else (jp, false)

/-- `replay_newstat` -/
def replayNewstat (C : Config) (env : ReplayEnv) (eventTime : Int) (j : JobRef) (newStat : JobStatusLog) (s : Mbd) : Mbd :=
  if newStat.jStatus.isPostFinish then
    s.modJob j fun jp => { jp with jStatus := { mask := newStat.jStatus }, endTime := newStat.endTime }
  else if newStat.jStatus.unkwn then s.modJob j (·.withUnkwn true)
  else
    let s := s.modJob j (·.withUnkwn false)
    if (s.jobs j).jStatus.mask.isPend ∧ newStat.jStatus.isStart then s
    else
      let r := (s.jobs j).readRecord env newStat
      let s := s.setJob j r.1
      if r.2 then jStatusChange C eventTime j newStat.jStatus eventTime s else s

theorem readRecord_keeps (env : ReplayEnv) (newStat : JobStatusLog) (jp : JData) :
    (jp.readRecord env newStat).1.jobId = jp.jobId ∧ (jp.readRecord env newStat).1.jStatus.mask = jp.jStatus.mask ∧
      (jp.readRecord env newStat).1.jgrpNode = jp.jgrpNode := by
  have hr : ∀ jp : JData, (jp.recordReason newStat).jobId = jp.jobId ∧
      (jp.recordReason newStat).jStatus.mask = jp.jStatus.mask ∧
      (jp.recordReason newStat).jgrpNode = jp.jgrpNode := fun jp => by
    unfold JData.recordReason
    split_ifs <;> exact ⟨rfl, rfl, rfl⟩
  have he : ∀ jp : JData, (jp.recordExit env newStat).1.jobId = jp.jobId ∧
      (jp.recordExit env newStat).1.jStatus.mask = jp.jStatus.mask ∧
      (jp.recordExit env newStat).1.jgrpNode = jp.jgrpNode := fun jp => by
    unfold JData.recordExit
    split_ifs <;> exact ⟨rfl, rfl, rfl⟩
  have hend : ∀ jp : JData, (jp.recordEnd env newStat).jobId = jp.jobId ∧
      (jp.recordEnd env newStat).jStatus.mask = jp.jStatus.mask ∧
      (jp.recordEnd env newStat).jgrpNode = jp.jgrpNode := fun jp => by
    unfold JData.recordEnd
    split_ifs <;> exact ⟨rfl, rfl, rfl⟩
  unfold JData.readRecord
  dsimp only
  split_ifs <;> simp only [hr, he, hend, and_self]

/-- The loop body at the end of `init_log`: counted as pending, then moved to its status. -/
def countReplayed (s : Mbd) (j : JobRef) : Mbd :=
  let jp := s.jobs j
  let s := post { jp with jStatus := { mask := .PEND } } (pendPosting jp.maxNumProcessors) s
  if jp.jStatus.mask.pend then s
  else
    let s := updCounters jp .PEND s
    if jp.jobBill.exclusive ∧ jp.jStatus.mask.isStart then
      { s with hosts := updateEach (fun _ hp => { hp with exclusive := true }) jp.hPtr s.hosts }
    else s

theorem countReplayed_frame (s : Mbd) (j : JobRef) : (countReplayed s j).jobs = s.jobs ∧
    (countReplayed s j).live = s.live ∧ (countReplayed s j).lists = s.lists ∧ (countReplayed s j).nodes = s.nodes := by
  unfold countReplayed
  dsimp only
  split_ifs <;> simp

/-- The end of `init_log`, and `schedulerInit`: the queues observe the lists from now on. -/
def endReplay (s : Mbd) : Mbd :=
  let jobs := [ListNo.SJL, .MJL, .PJL].flatMap fun l => (s.lists l).entries.reverse
  schedulerInit { jobs.foldl countReplayed s with replay := false }

/-- Only queues, users and hosts are counted anew. -/
theorem endReplay_frame (s : Mbd) : (endReplay s).jobs = s.jobs ∧ (endReplay s).live = s.live ∧
    (endReplay s).lists = s.lists ∧ (endReplay s).nodes = s.nodes := by
  have hf : ∀ jobs : List JobRef, ∀ s : Mbd, (jobs.foldl countReplayed s).jobs = s.jobs ∧
      (jobs.foldl countReplayed s).live = s.live ∧ (jobs.foldl countReplayed s).lists = s.lists ∧
      (jobs.foldl countReplayed s).nodes = s.nodes := by
    intro jobs
    induction jobs with
    | nil => simp
    | cons j jobs ih =>
      intro s
      obtain ⟨h1, h2, h3, h4⟩ := ih (countReplayed s j)
      obtain ⟨h1', h2', h3', h4'⟩ := countReplayed_frame s j
      exact ⟨h1.trans h1', h2.trans h2', h3.trans h3', h4.trans h4'⟩
  exact hf _ s

end OpenLava

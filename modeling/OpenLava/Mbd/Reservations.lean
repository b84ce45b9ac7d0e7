import OpenLava.Mbd.Accounts

/-!
# Slot reservations

A pending job may hold slots on hosts before it starts, and a suspended job may hold
the slots it will resume in. Both carry the bit `JOB_STAT_RESERVE`, and `updResCounters`
moves their slots between `numRESERVE` and the counter of their status.
-/

namespace OpenLava

open Ledger (updateEach)

/-- A proxy at the back for each local host without one. -/
def proxyHRsvJLAddEntry (j : JobRef) (jp : JData) (s : Mbd) : Mbd :=
  let add := fun (hp : HData) =>
    if hp.remote ∨ j ∈ hp.pxyRsvJL then hp else { hp with pxyRsvJL := hp.pxyRsvJL ++ [j] }
  { s with hosts := updateEach (fun _ => add) jp.hPtr s.hosts }

def proxyHRsvJLRemoveEntry (j : JobRef) (jp : JData) (s : Mbd) : Mbd :=
  let remove := fun (hp : HData) =>
    if hp.remote then hp else { hp with pxyRsvJL := hp.pxyRsvJL.erase j }
  { s with hosts := updateEach (fun _ => remove) jp.hPtr s.hosts }

/-- What a row of `updResCounters` does to the proxy lists. -/
inductive ProxyOp where
  | keep | add | remove
  deriving DecidableEq, Repr

/-- The table of `updResCounters`; `none` only write a log message. -/
def updResCountersRow (num numReq : Int) (cur newStatus : JStatus) : Option (Posting × ProxyOp) :=
  let new := newStatus.mask
  if cur.mask.known = .SSUSP then
    if ¬ cur.reserve ∧ newStatus.reserve ∧ new.isStart then
      some (⟨tally 0 0 0 (-num) 0 num, hostTally 0 0 (-1) 0 1⟩, .keep)
    else if cur.reserve ∧ ¬ newStatus.reserve ∧ (new.isStart ∨ new.pend) then
      some (⟨tally 0 0 0 num 0 (-num), hostTally 0 0 1 0 (-1)⟩, .keep)
    else if cur.reserve ∧ new.isFinish then
      some (⟨tally (-num) 0 0 0 0 (-num), hostTally (-1) 0 0 0 (-1)⟩, .keep)
    else none
  else if cur.mask.known = .USUSP then
    if ¬ cur.reserve ∧ newStatus.reserve ∧ new.isStart then
      some (⟨tally 0 0 0 0 (-num) num, hostTally 0 0 0 (-1) 1⟩, .keep)
    -- unlike a job in SSUSP, one in USUSP is not released on its way to PEND
    else if cur.reserve ∧ ¬ newStatus.reserve ∧ new.isStart then
      some (⟨tally 0 0 0 0 num (-num), hostTally 0 0 0 1 (-1)⟩, .keep)
    else if cur.reserve ∧ new.isFinish then
      some (⟨tally (-num) 0 0 0 0 (-num), hostTally (-1) 0 0 0 (-1)⟩, .keep)
    else none
  else if cur.mask.known = .PEND ∨ cur.mask.known = .PSUSP then
    if cur.reserve ∧ ¬ newStatus.reserve ∧ new.isPend then
      some (⟨tally 0 num 0 0 0 (-num), hostTally (-1) 0 0 0 (-1)⟩, .remove)
    else if ¬ cur.reserve ∧ newStatus.reserve ∧ new.isPend then
      some (⟨tally 0 (-num) 0 0 0 num, hostTally 1 0 0 0 1⟩, .add)
    else if cur.reserve ∧ new.isFinish then
      some (⟨tally (-numReq) (-numReq + num) 0 0 0 (-num), hostTally (-1) 0 0 0 (-1)⟩, .remove)
    else none
  else none

def updResCounters (j : JobRef) (jp : JData) (newStatus : JStatus) (s : Mbd) : Mbd :=
  if ¬ jp.jStatus.mask.isPend ∧ ¬ jp.jStatus.mask.isStart then s
  else
    match updResCountersRow jp.numHostPtr jp.maxNumProcessors jp.jStatus newStatus with
    | none => s
    | some (p, .keep) => post jp p s
    | some (p, .add) => proxyHRsvJLAddEntry j jp (post jp p s)
    | some (p, .remove) => proxyHRsvJLRemoveEntry j jp (post jp p s)

section

variable (j : JobRef) (jp : JData) (newStatus : JStatus) (s : Mbd)

theorem updResCounters_frame : (updResCounters j jp newStatus s).replay = s.replay ∧
    (updResCounters j jp newStatus s).jobs = s.jobs ∧ (updResCounters j jp newStatus s).live = s.live ∧
    (updResCounters j jp newStatus s).lists = s.lists ∧ (updResCounters j jp newStatus s).nodes = s.nodes ∧
    (updResCounters j jp newStatus s).ends = s.ends ∧
    ∀ q, ((updResCounters j jp newStatus s).queues q).priority = (s.queues q).priority := by
  unfold updResCounters
  split
  · simp
  · split <;> simp [proxyHRsvJLAddEntry, proxyHRsvJLRemoveEntry]

@[simp] theorem updResCounters_replay : (updResCounters j jp newStatus s).replay = s.replay :=
  (updResCounters_frame j jp newStatus s).1
@[simp] theorem updResCounters_jobs : (updResCounters j jp newStatus s).jobs = s.jobs :=
  (updResCounters_frame j jp newStatus s).2.1
@[simp] theorem updResCounters_live : (updResCounters j jp newStatus s).live = s.live :=
  (updResCounters_frame j jp newStatus s).2.2.1
@[simp] theorem updResCounters_lists : (updResCounters j jp newStatus s).lists = s.lists :=
  (updResCounters_frame j jp newStatus s).2.2.2.1
@[simp] theorem updResCounters_nodes : (updResCounters j jp newStatus s).nodes = s.nodes :=
  (updResCounters_frame j jp newStatus s).2.2.2.2.1
@[simp] theorem updResCounters_ends : (updResCounters j jp newStatus s).ends = s.ends :=
  (updResCounters_frame j jp newStatus s).2.2.2.2.2.1
@[simp] theorem updResCounters_priority (q : QRef) :
    ((updResCounters j jp newStatus s).queues q).priority = (s.queues q).priority :=
  (updResCounters_frame j jp newStatus s).2.2.2.2.2.2 q

end

def JData.withReserve (jp : JData) (b : Bool) : JData :=
  { jp with jStatus := { jp.jStatus with reserve := b } }

/-- `updResCounters (jp, jp->jStatus & ~JOB_STAT_RESERVE); jp->jStatus &= ~JOB_STAT_RESERVE` -/
def dropReserve (j : JobRef) (s : Mbd) : Mbd :=
  let jp := s.jobs j
  (updResCounters j jp { jp.jStatus with reserve := false } s).modJob j (·.withReserve false)

/-- `updResCounters (jp, jp->jStatus | JOB_STAT_RESERVE); jp->jStatus |= JOB_STAT_RESERVE` -/
def takeReserve (j : JobRef) (s : Mbd) : Mbd :=
  let jp := s.jobs j
  (updResCounters j jp { jp.jStatus with reserve := true } s).modJob j (·.withReserve true)

section

variable (j : JobRef) (s : Mbd)

@[simp] theorem dropReserve_replay : (dropReserve j s).replay = s.replay := by simp [dropReserve]
@[simp] theorem dropReserve_live : (dropReserve j s).live = s.live := by simp [dropReserve]
@[simp] theorem dropReserve_lists : (dropReserve j s).lists = s.lists := by simp [dropReserve]
@[simp] theorem dropReserve_nodes : (dropReserve j s).nodes = s.nodes := by simp [dropReserve]
theorem dropReserve_jobs : (dropReserve j s).jobs = (s.modJob j (·.withReserve false)).jobs := by
  simp [dropReserve, Mbd.modJob_jobs]

theorem takeReserve_jobs : (takeReserve j s).jobs = (s.modJob j (·.withReserve true)).jobs := by
  simp [takeReserve, Mbd.modJob_jobs]

end

/-- Add an amount to `numDispJobs` of a host, for each time it occurs. -/
def addDispJobs (hPtr : List HRef) (d : Int) (s : Mbd) : Mbd :=
  { s with hosts := updateEach (fun _ hp => { hp with numDispJobs := hp.numDispJobs + d }) hPtr s.hosts }

/-- For the execution candidates of the job with their slots. -/
def allocHosts (j : JobRef) (numEligProc : Int) (execCandPtr : List (HRef × Nat)) (s : Mbd) : Mbd :=
  if numEligProc ≤ 0 then s
  else
    let hPtr := execCandPtr.flatMap fun cand => List.replicate cand.2 cand.1
    (addDispJobs hPtr 1 s).modJob j fun jp => { jp with hPtr }

def deallocHosts (j : JobRef) (s : Mbd) : Mbd :=
  (addDispJobs (s.jobs j).hPtr (-1) s).modJob j fun jp => { jp with hPtr := [] }

/-- `reserveSlots` at time `now`. -/
def reserveSlots (C : Config) (now : Int) (j : JobRef) (s : Mbd) : Mbd :=
  if (s.jobs j).jStatus.reserve then s
  else
    let s := s.modJob j fun jp =>
      { jp with reserveTime := if jp.reserveTime = 0 then now else jp.reserveTime }
    let s := takeReserve j s
    if C.hasBackfillPolicy then s
    else
      let jp := s.jobs j
      let qp := s.queues jp.qPtr
      let qp := { qp with numUsable := qp.numUsable - jp.numHostPtr }
      { s with queues := Function.update s.queues jp.qPtr qp }

def freeReserveSlots (j : JobRef) (s : Mbd) : Mbd :=
  if ¬ (s.jobs j).jStatus.reserve then s
  else deallocHosts j (dropReserve j s)

section

variable (j : JobRef) (s : Mbd)

@[simp] theorem freeReserveSlots_live : (freeReserveSlots j s).live = s.live := by
  unfold freeReserveSlots; split <;> simp [deallocHosts, addDispJobs]
theorem freeReserveSlots_jobs (hr : (s.jobs j).jStatus.reserve) : (freeReserveSlots j s).jobs =
    (s.modJob j fun jp => { jp.withReserve false with hPtr := [] }).jobs := by
  simp [freeReserveSlots, hr, deallocHosts, addDispJobs, Mbd.modJob_jobs, dropReserve_jobs]

end

def resetReserve (j : JobRef) (newStatus : Mask) (s : Mbd) : Mbd :=
  if ¬ (s.jobs j).jStatus.reserve then s
  else
    let s :=
      if (newStatus.psusp ∨ newStatus.isFinish) ∧ (s.jobs j).jStatus.mask.pend then
        (freeReserveSlots j s).modJob j fun jp => { jp with reserveTime := 0 }
      else s
    if (s.jobs j).jStatus.mask.isStart ∧
        (newStatus.run ∨ newStatus.isFinish ∨ newStatus.ususp ∨ newStatus.pend) then
      dropReserve j s
    else s

end OpenLava

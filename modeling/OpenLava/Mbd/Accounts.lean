import OpenLava.Ledger
import OpenLava.Mbd.State

/-!
# Queue, user and host counters

`updQaccount`, `updUserData` and `updHostData` add a tally to the counters that a job contributes to. The pending
reasons that the same functions maintain are not modelled: no function here reads them.
-/

namespace OpenLava

open Ledger (clampAdd updateEach)

/-- A counter that would become negative is set to zero. The source adds in `int`; the results about runs bound the sums
(`InInt`). -/
def addValue (currentValue num : Int) : Int := clampAdd currentValue num

/-- Whether `addValue` reports a negative counter for these amounts. -/
def overdrawn (count d : Tally) : Bool :=
  [Counter.numJobs, .numPEND, .numRUN, .numSSUSP, .numUSUSP, .numRESERVE].any
    fun c => decide (count c + d c < 0)

/-- One up or one down, by the sign. -/
def addOneAbs (num addedNum : Int) : Int :=
  if 0 < addedNum then num + 1 else if addedNum < 0 then num - 1 else num

/-- The entry of one user, after `updUAcct`; a new one has no `numNonPrmptRsv`. -/
def addUser (jp : JData) (d : Tally) (numPEND : Int) : Option Acct → Option Acct
  | some foundU => some fun
    | .numRUN => addValue (foundU .numRUN) (d .numRUN)
    | .numSSUSP => addValue (foundU .numSSUSP) (d .numSSUSP)
    | .numUSUSP => addValue (foundU .numUSUSP) (d .numUSUSP)
    | .numRESERVE => addValue (foundU .numRESERVE) (d .numRESERVE)
    | .numPEND => addValue (foundU .numPEND) numPEND
    | .numNonPrmptRsv =>
      if d .numRESERVE ≠ 0 ∧ ¬ jp.jStatus.mask.pend then
        addValue (foundU .numNonPrmptRsv) (d .numRESERVE)
      else foundU .numNonPrmptRsv
  | none =>
    if d .numRUN ≠ 0 ∨ d .numSSUSP ≠ 0 ∨ d .numUSUSP ≠ 0 ∨ d .numRESERVE ≠ 0 ∨ numPEND ≠ 0 then
      some fun
        | .numRUN => d .numRUN
        | .numSSUSP => d .numSSUSP
        | .numUSUSP => d .numUSUSP
        | .numRESERVE => d .numRESERVE
        | .numPEND => numPEND
        | .numNonPrmptRsv => 0
    else none

/-- For the users in a list. -/
def updUAcct (jp : JData) (up : List URef) (d : Tally) (numPEND : Int) (uAcct : URef → Option Acct) : URef → Option Acct :=
  updateEach (fun _ => addUser jp d numPEND) up uAcct

/-- The entry of one host, after the loop body of `updHAcct`. -/
def addHost (jp : JData) (d : Tally) : Option Acct → Option Acct
  | some foundH => some fun
    | .numRUN => addOneAbs (foundH .numRUN) (d .numRUN)
    | .numSSUSP => addOneAbs (foundH .numSSUSP) (d .numSSUSP)
    | .numUSUSP => addOneAbs (foundH .numUSUSP) (d .numUSUSP)
    | .numRESERVE => addOneAbs (foundH .numRESERVE) (d .numRESERVE)
    | .numPEND => foundH .numPEND
    | .numNonPrmptRsv =>
      if d .numRESERVE ≠ 0 ∧ ¬ jp.jStatus.mask.pend then
        addOneAbs (foundH .numNonPrmptRsv) (d .numRESERVE)
      else foundH .numNonPrmptRsv
  | none =>
    if 0 < d .numRUN ∨ 0 < d .numSSUSP ∨ 0 < d .numUSUSP ∨ 0 < d .numRESERVE then
      some fun
        | .numRUN => addOneAbs 0 (d .numRUN)
        | .numSSUSP => addOneAbs 0 (d .numSSUSP)
        | .numUSUSP => addOneAbs 0 (d .numUSUSP)
        | .numRESERVE => addOneAbs 0 (d .numRESERVE)
        | .numPEND => 0
        | .numNonPrmptRsv => 0
    else none

/-- One unit for each local host of the array. -/
def updHAcct (remote : HRef → Bool) (jp : JData) (d : Tally) (hAcct : HRef → Option Acct) : HRef → Option Acct :=
  updateEach (fun h acct => if remote h then acct else addHost jp d acct) jp.hPtr hAcct

/-- `updQaccount`, on the record of the job's queue. -/
def QData.account (remote : HRef → Bool) (ancestors : List URef) (jp : JData) (d : Tally) (qp : QData) : QData :=
  let newJob := d .numRUN = 0 ∧ d .numSSUSP = 0 ∧ d .numUSUSP = 0 ∧ d .numRESERVE = 0 ∧
    d .numPEND = 0
  { qp with
    count := fun c => addValue (qp.count c) (d c)
    clamped := qp.clamped || overdrawn qp.count d
    uAcct := updUAcct jp (jp.uPtr :: ancestors) d (d .numPEND) qp.uAcct
    hAcct := if newJob then qp.hAcct else updHAcct remote jp d qp.hAcct }

def updQaccount (jp : JData) (d : Tally) (s : Mbd) : Mbd :=
  let remote := fun h => (s.hosts h).remote
  let qp := (s.queues jp.qPtr).account remote (s.users jp.uPtr).ancestors jp d
  { s with queues := Function.update s.queues jp.qPtr qp }

def updUserData1 (remote : HRef → Bool) (jp : JData) (d : Tally) (up : UData) : UData :=
  let newJob := d .numRUN = 0 ∧ d .numSSUSP = 0 ∧ d .numUSUSP = 0 ∧ d .numRESERVE = 0
  { up with
    count := fun c => addValue (up.count c) (d c)
    clamped := up.clamped || overdrawn up.count d
    hAcct := if ¬ newJob ∧ up.pJobLimit.isSome then updHAcct remote jp d up.hAcct else up.hAcct }

/-- The user first, then each of the user's groups. -/
def updUserData (jp : JData) (d : Tally) (s : Mbd) : Mbd :=
  let remote := fun h => (s.hosts h).remote
  { s with
    users := updateEach (fun _ => updUserData1 remote jp d) (jp.uPtr :: (s.users jp.uPtr).gPtr) s.users }

/-- The loop body of `updHostData`, on one host; its amounts hold zero in `numPEND`. -/
def HData.account (jp : JData) (d : Tally) (hp : HData) : HData :=
  let count : Tally := fun c => addValue (hp.count c) (d c)
  if hp.remote then hp
  else
    { hp with
      uAcct :=
        if hp.uJobLimit.isSome ∧
            (d .numRUN ≠ 0 ∨ d .numSSUSP ≠ 0 ∨ d .numUSUSP ≠ 0 ∨ d .numRESERVE ≠ 0) then
          updUAcct jp [jp.uPtr] d 0 hp.uAcct
        else hp.uAcct
      count := count
      clamped := hp.clamped || overdrawn hp.count d
      full := decide (hp.maxJobs ≤ count .numJobs)
      updated := true
      full_eq := fun _ => rfl
      exclusive := if count .numJobs ≤ 0 then false else hp.exclusive }

def updHostData (jp : JData) (d : Tally) (s : Mbd) : Mbd :=
  { s with hosts := updateEach (fun _ => HData.account jp d) jp.hPtr s.hosts }

/-- The arguments of `updHostData`: a host has no `numPEND`. -/
def hostTally (numJobs numRUN numSSUSP numUSUSP numRESERVE : Int) : Tally :=
  tally numJobs 0 numRUN numSSUSP numUSUSP numRESERVE

/-- The amounts for `updQaccount` and `updUserData`, and for `updHostData` if it is called. -/
structure Posting where
  acct : Tally
  host : Option Tally := none

def post (jp : JData) (p : Posting) (s : Mbd) : Mbd :=
  let s := updUserData jp p.acct (updQaccount jp p.acct s)
  match p.host with
  | none => s
  | some d => updHostData jp d s

section

variable (jp : JData) (p : Posting) (s : Mbd)

@[simp] theorem post_replay : (post jp p s).replay = s.replay := by unfold post; split <;> rfl
@[simp] theorem post_jobs : (post jp p s).jobs = s.jobs := by unfold post; split <;> rfl
@[simp] theorem post_live : (post jp p s).live = s.live := by unfold post; split <;> rfl
@[simp] theorem post_lists : (post jp p s).lists = s.lists := by unfold post; split <;> rfl
@[simp] theorem post_nodes : (post jp p s).nodes = s.nodes := by unfold post; split <;> rfl
@[simp] theorem post_ends : (post jp p s).ends = s.ends := by unfold post; split <;> rfl

theorem post_hostField {β : Type} (f : HData → β) (hf : ∀ d hp, f (HData.account jp d hp) = f hp) (h : HRef) :
    f ((post jp p s).hosts h) = f (s.hosts h) := by
  unfold post
  split
  · rfl
  · rename_i d _
    exact Ledger.updateEach_field f (fun _ => HData.account jp d) (fun _ hp => hf d hp) jp.hPtr s.hosts h

@[simp] theorem post_priority (q : QRef) : ((post jp p s).queues q).priority = (s.queues q).priority := by
  have hpost : (post jp p s).queues = (updQaccount jp p.acct s).queues := by unfold post; split <;> rfl
  rw [hpost, updQaccount]
  by_cases hq : q = jp.qPtr
  · subst hq
    simp [QData.account]
  · simp [hq]

end

/-- The table of `updCounters`: the old status is tested by bits. `none` only write a log
message. -/
def updCountersRow (num numReq : Int) (oldStatus newStatus : Mask) : Option Posting :=
  if newStatus.known = .RUN then
    if oldStatus.pend ∨ oldStatus.psusp then
      some ⟨tally (-numReq + num) (-numReq) num 0 0 0, hostTally 1 1 0 0 0⟩
    else if oldStatus.ssusp then some ⟨tally 0 0 num (-num) 0 0, hostTally 0 1 (-1) 0 0⟩
    else if oldStatus.ususp then some ⟨tally 0 0 num 0 (-num) 0, hostTally 0 1 0 (-1) 0⟩
    else none
  else if newStatus.known = .SSUSP then
    if oldStatus.run then some ⟨tally 0 0 (-num) num 0 0, hostTally 0 (-1) 1 0 0⟩
    else if oldStatus.ususp then some ⟨tally 0 0 0 num (-num) 0, hostTally 0 0 1 (-1) 0⟩
    else if oldStatus.pend then
      some ⟨tally (-numReq + num) (-numReq) 0 num 0 0, hostTally 1 0 1 0 0⟩
    else none
  else if newStatus.known = .USUSP then
    if oldStatus.run then some ⟨tally 0 0 (-num) 0 num 0, hostTally 0 (-1) 0 1 0⟩
    else if oldStatus.ssusp then some ⟨tally 0 0 0 (-num) num 0, hostTally 0 0 (-1) 1 0⟩
    else if oldStatus.pend then
      some ⟨tally (-numReq + num) (-numReq) 0 0 num 0, hostTally 1 0 0 1 0⟩
    else none
  else if newStatus.known = .EXIT ∨ newStatus.known = .DONE then
    if oldStatus.wait then some ⟨tally (-num) 0 (-num) 0 0 0, hostTally (-1) (-1) 0 0 0⟩
    else if oldStatus.run then some ⟨tally (-num) 0 (-num) 0 0 0, hostTally (-1) (-1) 0 0 0⟩
    else if oldStatus.ususp then some ⟨tally (-num) 0 0 0 (-num) 0, hostTally (-1) 0 0 (-1) 0⟩
    else if oldStatus.ssusp then some ⟨tally (-num) 0 0 (-num) 0 0, hostTally (-1) 0 (-1) 0 0⟩
    else if oldStatus.isPend then some ⟨tally (-numReq) (-numReq) 0 0 0 0, none⟩
    else none
  else if newStatus.known = .PEND then
    if oldStatus.run then some ⟨tally (numReq - num) numReq (-num) 0 0 0, hostTally (-1) (-1) 0 0 0⟩
    else if oldStatus.ususp then
      some ⟨tally (-num + numReq) numReq 0 0 (-num) 0, hostTally (-1) 0 0 (-1) 0⟩
    else if oldStatus.ssusp then
      some ⟨tally (-num + numReq) numReq 0 (-num) 0 0, hostTally (-1) 0 (-1) 0 0⟩
    else none
  else none

def updCounters (jp : JData) (oldStatus : Mask) (s : Mbd) : Mbd :=
  let newStatus := jp.jStatus.mask
  if oldStatus.isFinish then s
  else if newStatus.known = oldStatus.known then s
  else if newStatus.isPend ∧ oldStatus.isPend then s
  else
    match updCountersRow jp.numHostPtr jp.maxNumProcessors oldStatus newStatus with
    | none => s
    | some p => post jp p s

section

variable (jp : JData) (oldStatus : Mask) (s : Mbd)

theorem updCounters_post : updCounters jp oldStatus s = s ∨ ∃ p, updCounters jp oldStatus s = post jp p s := by
  unfold updCounters
  dsimp only
  split_ifs
  · exact .inl rfl
  · exact .inl rfl
  · exact .inl rfl
  · split
    · exact .inl rfl
    · exact .inr ⟨_, rfl⟩

@[simp] theorem updCounters_replay : (updCounters jp oldStatus s).replay = s.replay := by
  rcases updCounters_post jp oldStatus s with h | ⟨p, h⟩ <;> simp [h]
@[simp] theorem updCounters_jobs : (updCounters jp oldStatus s).jobs = s.jobs := by
  rcases updCounters_post jp oldStatus s with h | ⟨p, h⟩ <;> simp [h]
@[simp] theorem updCounters_live : (updCounters jp oldStatus s).live = s.live := by
  rcases updCounters_post jp oldStatus s with h | ⟨p, h⟩ <;> simp [h]
@[simp] theorem updCounters_lists : (updCounters jp oldStatus s).lists = s.lists := by
  rcases updCounters_post jp oldStatus s with h | ⟨p, h⟩ <;> simp [h]
@[simp] theorem updCounters_nodes : (updCounters jp oldStatus s).nodes = s.nodes := by
  rcases updCounters_post jp oldStatus s with h | ⟨p, h⟩ <;> simp [h]
@[simp] theorem updCounters_ends : (updCounters jp oldStatus s).ends = s.ends := by
  rcases updCounters_post jp oldStatus s with h | ⟨p, h⟩ <;> simp [h]
@[simp] theorem updCounters_priority (q : QRef) :
    ((updCounters jp oldStatus s).queues q).priority = (s.queues q).priority := by
  rcases updCounters_post jp oldStatus s with h | ⟨p, h⟩ <;> simp [h]

end

end OpenLava

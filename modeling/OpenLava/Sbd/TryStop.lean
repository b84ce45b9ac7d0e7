import OpenLava.Mbd.ResumeLoad

/-!
# Stopping jobs by the load of their hosts

`tryStop` of `sbd.policy.c`. `stopmore` is set for a lock, the idle time and the login limit, and no later call of
`shouldStop` resets it; a parallel job ends the pass in any case.
-/

namespace OpenLava.Stop

open Resume

/-- An execution host with its load, and its row of `thresholds.loadStop`. -/
structure Host where
  (lockedU lockedM : Bool := false)
  (li loadStop : Nat → ℚ)

structure JobCard where
  ready : Bool := true -- It runs since `sbdSleepTime`, and none of the first tests of `shouldStop` returns.
  exclusive : Bool := false -- `Q_ATTRIB_EXCLUSIVE`
  parallel : Bool := false -- `numToHosts` is not 1.
  stays : Bool := false -- `jStatus` stays `RUN` at first, as the suspend action has still to run.
  hosts : List (Option Host) -- Each host once; there is none where the load information is not found.
  stopCond : Host → Bool := fun _ => false

structure Env where
  numIdx : Nat := MEM + 1 -- The smaller one of `numIndx` and `nIdx`.
  incr : Nat → Bool := fun _ => true -- `orderType` is `INCR`.
  ignoreIT : Bool := false -- `LSB_STOP_IGNORE_IT`

def above (h : Host) (i : Nat) : Bool :=
  h.li i ≥ h.loadStop i ∧ h.li i ≠ INFINIT_LOAD ∧ h.loadStop i ≠ INFINIT_LOAD

def below (h : Host) (i : Nat) : Bool :=
  h.li i ≤ h.loadStop i ∧ h.li i ≠ -INFINIT_LOAD ∧ h.loadStop i ≠ -INFINIT_LOAD

/-- The tests of the indices behind those of the system. -/
def beyond (E : Env) (h : Host) (i : Nat) : Bool :=
  MEM < i ∧ -INFINIT_LOAD < h.li i ∧ h.li i < INFINIT_LOAD ∧ -INFINIT_LOAD < h.loadStop i ∧ h.loadStop i < INFINIT_LOAD ∧
    if E.incr i then h.li i ≥ h.loadStop i else h.li i ≤ h.loadStop i

/-- Whether there is a reason on a host, and if so whether it sets `stopmore`. -/
def reason (E : Env) (jp : JobCard) (h : Host) : Option Bool :=
  if h.lockedU && !jp.exclusive || h.lockedM || below h IT || above h LS then some true
  else if [UT, PG, IO_, R15S, R1M, R15M].any (above h) || [MEM, SWP, TMP].any (below h) ||
    (List.range E.numIdx).any (beyond E h) || jp.stopCond h then some false
  else none

/-- The first host with a reason. -/
def firstReason (E : Env) (jp : JobCard) : List (Option Host) → Option (Host × Bool)
  | some h :: hosts => ((reason E jp h).map (h, ·)).orElse fun _ => firstReason E jp hosts
  | _ => none

/-- With `shouldStop1` where `rcnt` jobs run: whether to stop the job, and whether `stopmore` is set. -/
def shouldStop (E : Env) (rcnt : Nat) (jp : JobCard) : Bool × Bool :=
  match firstReason E jp jp.hosts with
  | none => (false, false)
  | some (load, more) => (load.lockedU || load.lockedM || rcnt > 1 || load.li IT < 1 || E.ignoreIT, more)

/-- What `shouldStop` says of a job where `rcnt` jobs run; one that is not ready is not asked for. -/
def judge (E : Env) (rcnt : Nat) (jp : JobCard) : Bool × Bool :=
  if jp.ready then shouldStop E rcnt jp else (false, false)

/-- The jobs that are suspended, each with whether its reason is one to stop more. -/
def tryStop (E : Env) : Nat → Bool → List JobCard → List (JobCard × Bool)
  | _, _, [] => []
  | rcnt, stopmore, jp :: jobs =>
    let more := (judge E rcnt jp).2
    let rcnt' := if jp.stays then rcnt else rcnt - 1
    if (judge E rcnt jp).1 then
      (jp, more) ::
        if (stopmore || more) && !jp.parallel then tryStop E rcnt' (stopmore || more) jobs else []
    else tryStop E rcnt (stopmore || more) jobs

/-- The pass as it is meant: it ends with the first suspension for an ordinary reason. -/
def wantedStops (E : Env) : Nat → List JobCard → List (JobCard × Bool)
  | _, [] => []
  | rcnt, jp :: jobs =>
    let more := (judge E rcnt jp).2
    let rcnt' := if jp.stays then rcnt else rcnt - 1
    if (judge E rcnt jp).1 then (jp, more) :: if more then wantedStops E rcnt' jobs else []
    else wantedStops E rcnt jobs

/-- No job that comes later is to be stopped where it matters: behind a parallel job that is stopped
for a lock, the idle time or the login limit, and behind a single host job that is stopped for an
ordinary reason while `stopmore` tells that a job before it had a reason of the other kind. -/
def Orderly (E : Env) : Nat → Bool → List JobCard → Prop
  | _, _, [] => True
  | rcnt, stopmore, jp :: jobs =>
    let rcnt' := if jp.stays then rcnt else rcnt - 1
    if (judge E rcnt jp).1 then
      if (judge E rcnt jp).2 && !jp.parallel then Orderly E rcnt' true jobs
      else (judge E rcnt jp).2 || stopmore && !jp.parallel → ∀ b ∈ jobs, (judge E rcnt' b).1 = false
    else Orderly E rcnt (stopmore || (judge E rcnt jp).2) jobs

theorem tryStop_eq_nil :
    tryStop E rcnt stopmore jobs = [] ↔ ∀ b ∈ jobs, (judge E rcnt b).1 = false := by
  induction jobs generalizing stopmore with
  | nil => simp [tryStop]
  | cons jp jobs ih => cases hj : (judge E rcnt jp).1 <;> simp [tryStop, hj, ih]

theorem wantedStops_eq_nil :
    wantedStops E rcnt jobs = [] ↔ ∀ b ∈ jobs, (judge E rcnt b).1 = false := by
  induction jobs with
  | nil => simp [wantedStops]
  | cons jp jobs ih => cases hj : (judge E rcnt jp).1 <;> simp [wantedStops, hj, ih]

theorem tryStop_eq_iff (jobs : List JobCard) :
    tryStop E rcnt stopmore jobs = wantedStops E rcnt jobs ↔ Orderly E rcnt stopmore jobs := by
  induction jobs generalizing rcnt stopmore with
  | nil => exact iff_of_true rfl trivial
  | cons jp jobs ih =>
    rw [tryStop, wantedStops, Orderly]
    -- the two passes differ in what they do behind a job that is stopped
    cases hstop : (judge E rcnt jp).1 with
    | false => simpa using ih
    | true =>
      cases hmore : (judge E rcnt jp).2 with
      | true =>
        cases hpar : jp.parallel with
        | true => simp [eq_comm (a := []), wantedStops_eq_nil]
        | false => simpa using ih
      | false => cases hpar : jp.parallel <;> cases stopmore <;> simp [tryStop_eq_nil]

/-- The pass is as it is meant iff no job is to be stopped where it goes on or ends too soon. -/
theorem tryStop_wanted_iff (E : Env) (rcnt : Nat) (jobs : List JobCard) :
    tryStop E rcnt false jobs = wantedStops E rcnt jobs ↔ Orderly E rcnt false jobs :=
  tryStop_eq_iff jobs

def idle : Nat → ℚ := fun i => if i = IT then 2 else 0

/-- A host that the master has locked, and one that pages too much. -/
def locked : JobCard := { hosts := [some { lockedM := true, li := idle, loadStop := fun _ => 1 }] }
def paging : JobCard := { hosts := [some { li := idle, loadStop := fun i => if i = PG then 0 else 1 }] }

/-- After a job on a locked host, all those on paging hosts are suspended; and a parallel job on one ends the pass. -/
theorem tryStop_not_wanted : (tryStop {} 4 false [locked, paging, paging]).map Prod.snd = [true, false, false] ∧
    (tryStop {} 2 false [{ locked with parallel := true }, locked]).map Prod.snd = [true] := by
  decide +kernel

end OpenLava.Stop

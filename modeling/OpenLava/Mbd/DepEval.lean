import OpenLava.Mbd.DepCond
import OpenLava.Mbd.State

/-!
# Dependency conditions over arrays

`evalDepCond` of `mbd.dep.c` on trees whose nodes keep the value of their last evaluation.
-/

namespace OpenLava.DepEval

open OpenLava.DepCond (Value DptType)
open OpenLava.JobId (LSB_JOBID LSB_ARRAY_IDX)

inductive JobDep where
  | DONE | POST_DONE | POST_ERR | ENDED | STARTED | EXIT
  deriving DecidableEq

inductive NumDep where
  | NUMPEND | NUMHOLD | NUMRUN | NUMEXIT | NUMDONE | NUMSTART | NUMENDED
  deriving DecidableEq

/-- `struct idxList`, one range of it. -/
structure IdxRange where
  (start stop step : Int)

/-- `struct jobIdx`: the indices of a condition, and the elements there were when it was parsed. -/
structure JobIdx where
  idxList : List IdxRange := []
  depJobList : List JobRef := []

structure JobLeaf where
  dep : JobDep
  dptJobRec : Option JobRef
  dptJobIdx : Option JobIdx := none
  opType : DptType := .TRUE
  exitCode : Int := 0
  oneToOne : Bool := false -- `opFlag == ARRAY_DEP_ONE_TO_ONE`

structure NumLeaf where
  dep : NumDep
  dptJgrp : Option Nat
  opType : DptType := .NE
  num : Int := 0

/-- `struct timeWindow`: the windows of the week, with the status and until when it is kept. -/
structure TimeWindow where
  week : Nat
  status : Bool := false -- `WINDOW_OPEN`
  windEdge : Int := 0

/-- A node with the value of its last evaluation. Nothing writes the value of a parenthesis. -/
inductive DptNode where
  | job (value : Value) (leaf : JobLeaf)
  | window (value : Value) (dptWindow : TimeWindow)
  | num (value : Value) (leaf : NumLeaf)
  | not (value : Value) (dptLeft : DptNode)
  | and (value : Value) (dptLeft dptRight : DptNode)
  | or (value : Value) (dptLeft dptRight : DptNode)
  | left_ (dptLeft dptRight : DptNode)

structure DepJob where
  jobId : Int
  isArray : Bool := false -- `nodeType == JGRP_NODE_ARRAY`
  nextJobs : List JobRef := [] -- the elements that `nextJob` leads to

structure JobState where
  jStatus : Mask := {}
  void : Bool := false -- `JOB_STAT_VOID`
  preExec : Bool := false -- `JOB_STAT_PRE_EXEC`
  lastRunSucc : Bool := false -- `JFLAG_LASTRUN_SUCC`
  (startTime endTime exitStatus : Int := 0)

structure ArrayState where
  void : Bool := false -- `status == JGRP_VOID`
  counts : JgrpCounter → Int := fun _ => 0

structure Env where
  jobs : JobRef → DepJob
  state : JobRef → JobState := fun _ => {}
  getJobData : Int → Option JobRef := fun _ => none
  (now midnight : Int := 0)
  today : Nat → Option (Bool × Int) := fun _ => none -- what `checkWindow` makes of the windows of the day, if there are any
  arrays : Nat → ArrayState := fun _ => {}

/-- On a day without windows the status stays what it was. -/
def updateTimeWindow (env : Env) (timeW : TimeWindow) : TimeWindow :=
  if timeW.windEdge > env.now ∨ timeW.windEdge = 0 then timeW
  else
    match env.today timeW.week with
    | none => { timeW with windEdge := env.midnight }
    | some (status, windEdge) => { timeW with status, windEdge }

def opExpr (opType : DptType) (operand1 operand2 : Int) : Bool :=
  match opType with
  | .LT => operand1 < operand2
  | .LE => operand1 ≤ operand2
  | .GT => operand1 > operand2
  | .GE => operand1 ≥ operand2
  | .EQ => operand1 = operand2
  | .NE => operand1 ≠ operand2
  | .TRUE => true
  | _ => false

/-- `IS_POST_FINISH` -/
def isPostFinish (m : Mask) : Bool := m.pdone || m.perr

def evalJobDep (leaf : JobLeaf) (jpbw : JobState) (depJob : Option JobState) : Bool :=
  let before := fun time => depJob.all fun depJob => depJob.endTime < time
  match leaf.dep with
  | .DONE => before jpbw.endTime && (jpbw.jStatus.done || (jpbw.jStatus.isPend && jpbw.lastRunSucc))
  | .POST_DONE => before jpbw.endTime && (jpbw.jStatus.pdone && jpbw.jStatus.done)
  | .POST_ERR => before jpbw.endTime && (jpbw.jStatus.perr && jpbw.jStatus.done)
  | .EXIT =>
    before jpbw.endTime && opExpr leaf.opType (jpbw.exitStatus >>> (8 : Nat)) leaf.exitCode &&
      (jpbw.jStatus.isFinish || (jpbw.jStatus.isPend && !jpbw.lastRunSucc)) && !jpbw.jStatus.done
  | .ENDED => before jpbw.endTime && (jpbw.jStatus.isFinish || jpbw.jStatus.isPend)
  | .STARTED => jpbw.startTime ≠ 0 && before jpbw.startTime && !jpbw.preExec

def failedValue (leaf : JobLeaf) (jpbw : JobState) : Value :=
  if jpbw.void || (jpbw.jStatus.isFinish && !(!isPostFinish jpbw.jStatus && jpbw.jStatus.done &&
      (leaf.dep = .POST_DONE || leaf.dep = .POST_ERR))) then .DP_INVALID
  else .DP_FALSE

def inIdxList (jobId : Int) (idxList : List IdxRange) : Bool :=
  idxList.isEmpty || idxList.any fun idx =>
    idx.start ≤ LSB_ARRAY_IDX jobId && LSB_ARRAY_IDX jobId ≤ idx.stop && (LSB_ARRAY_IDX jobId - idx.start) % idx.step = 0

inductive Visit where
  | crash -- a null pointer is followed
  | invalid
  | jobs (jobs : List JobRef)

section

variable (env : Env) (jobRec : Option JobRef)

/-- The scan of the saved list keeps the last job it came to. -/
def scanSaved (arrayIdx : Int) : List JobRef → Visit
  | [] => .crash
  | [j] => .jobs [j]
  | j :: rest => if arrayIdx = LSB_ARRAY_IDX (env.jobs j).jobId then .jobs [j] else scanSaved arrayIdx rest

def visitOneToOne (jpbw : JobRef) (leaf : JobLeaf) : Visit :=
  match jobRec with
  | none => .crash
  | some jobRec =>
    let arrayIdx := LSB_ARRAY_IDX (env.jobs jobRec).jobId
    match env.getJobData (LSB_JOBID (env.jobs jpbw).jobId arrayIdx) with
    | some element => .jobs [element]
    | none =>
      match leaf.dptJobIdx with
      | none => .invalid
      | some dptJobIdx => scanSaved env arrayIdx dptJobIdx.depJobList

def visit (leaf : JobLeaf) : Visit :=
  match leaf.dptJobRec with
  | none => .invalid
  | some jpbw =>
    if ¬ (env.jobs jpbw).isArray then .jobs [jpbw]
    else if leaf.oneToOne then visitOneToOne env jobRec jpbw leaf
    else
      match leaf.dptJobIdx with
      | none => .jobs (env.jobs jpbw).nextJobs
      | some dptJobIdx =>
        .jobs (if dptJobIdx.depJobList = [] then (env.jobs jpbw).nextJobs else dptJobIdx.depJobList)

def selected (leaf : JobLeaf) (jobs : List JobRef) : List JobRef :=
  jobs.filter fun j => leaf.oneToOne || leaf.dptJobIdx.all fun dptJobIdx => inIdxList (env.jobs j).jobId dptJobIdx.idxList

def satisfied (leaf : JobLeaf) (j : JobRef) : Bool := evalJobDep leaf (env.state j) (jobRec.map env.state)

def evalElements (leaf : JobLeaf) (value : Value) : List JobRef → Value
  | [] => value
  | j :: rest => if satisfied env jobRec leaf j then evalElements leaf .DP_TRUE rest else failedValue leaf (env.state j)

def evalJob (value : Value) (leaf : JobLeaf) : Option Value :=
  match visit env jobRec leaf with
  | .crash => none
  | .invalid => some .DP_INVALID
  | .jobs jobs => some (evalElements env jobRec leaf value (selected env leaf jobs))

def getCounterOfDep (dep : NumDep) (counts : JgrpCounter → Int) : Int :=
  match dep with
  | .NUMPEND => counts .PEND
  | .NUMRUN => counts .NRUN
  | .NUMHOLD => counts .NPSUSP
  | .NUMEXIT => counts .NEXIT
  | .NUMDONE => counts .NDONE
  | .NUMSTART => counts .NJOBS - counts .PEND - counts .NPSUSP
  | .NUMENDED => counts .NEXIT + counts .NDONE

def evalNum (leaf : NumLeaf) : Value × NumLeaf :=
  match leaf.dptJgrp with
  | none => (.DP_INVALID, leaf)
  | some a =>
    let array := env.arrays a
    if array.void then (.DP_INVALID, { leaf with dptJgrp := none })
    else
      let num :=
        if leaf.num = JobId.INFINIT_INT then (if array.counts .NJOBS ≤ 0 then JobId.INFINIT_INT else array.counts .NJOBS)
        else leaf.num
      (if opExpr leaf.opType (getCounterOfDep leaf.dep array.counts) num then .DP_TRUE else .DP_FALSE, leaf)

/-- The value of `||`, `&&` and `!`; the right operand counts only where it is evaluated. -/
def orValue (l r : Value) : Value :=
  match l with
  | .DP_REJECT => .DP_REJECT
  | .DP_TRUE => .DP_TRUE
  | .DP_FALSE =>
    match r with
    | .DP_REJECT => .DP_REJECT
    | .DP_TRUE => .DP_TRUE
    | _ => .DP_FALSE
  | .DP_INVALID => r

def andValue (l r : Value) : Value :=
  match l with
  | .DP_INVALID => .DP_INVALID
  | .DP_REJECT => .DP_REJECT
  | .DP_FALSE =>
    match r with
    | .DP_INVALID => .DP_INVALID
    | .DP_REJECT => .DP_REJECT
    | _ => .DP_FALSE
  | .DP_TRUE => r

def notValue : Value → Value
  | .DP_REJECT => .DP_REJECT
  | .DP_FALSE => .DP_TRUE
  | .DP_INVALID => .DP_TRUE
  | .DP_TRUE => .DP_FALSE

/-- The value, and the tree with the new values. -/
def evalDepCond : DptNode → Option (Value × DptNode)
  | .job value leaf => (evalJob env jobRec value leaf).map fun v => (v, .job v leaf)
  | .window _ w =>
    let w := updateTimeWindow env w
    let v := if w.status then Value.DP_TRUE else .DP_FALSE
    some (v, .window v w)
  | .num _ leaf =>
    let (v, leaf) := evalNum env leaf
    some (v, .num v leaf)
  | .not _ l => (evalDepCond l).map fun (v, l) => (notValue v, .not (notValue v) l)
  | .or _ l r =>
    (evalDepCond l).bind fun (lv, l) =>
      if lv = .DP_REJECT ∨ lv = .DP_TRUE then some (lv, .or lv l r)
      else (evalDepCond r).map fun (rv, r) => (orValue lv rv, .or (orValue lv rv) l r)
  | .and _ l r =>
    (evalDepCond l).bind fun (lv, l) =>
      if lv = .DP_INVALID ∨ lv = .DP_REJECT then some (lv, .and lv l r)
      else (evalDepCond r).map fun (rv, r) => (andValue lv rv, .and (andValue lv rv) l r)
  | .left_ l r => some (.DP_FALSE, .left_ l r)

end

def DptNode.erase : DptNode → DptNode
  | .job _ leaf => .job .DP_FALSE leaf
  | .window _ w => .window .DP_FALSE { week := w.week }
  | .num _ leaf => .num .DP_FALSE leaf
  | .not _ l => .not .DP_FALSE l.erase
  | .and _ l r => .and .DP_FALSE l.erase r.erase
  | .or _ l r => .or .DP_FALSE l.erase r.erase
  | .left_ l r => .left_ l.erase r.erase

def DptNode.Each (P : DptNode → Prop) : DptNode → Prop
  | .not v l => P (.not v l) ∧ l.Each P
  | .and v l r => P (.and v l r) ∧ l.Each P ∧ r.Each P
  | .or v l r => P (.or v l r) ∧ l.Each P ∧ r.Each P
  | .left_ l r => P (.left_ l r) ∧ l.Each P ∧ r.Each P
  | node => P node

section

variable {env : Env} {jobRec : Option JobRef} {leaf : JobLeaf} {v : Value}

def Independent (env : Env) (jobRec : Option JobRef) (node : DptNode) : Prop :=
  ∃ v, ∀ node' : DptNode, node'.erase = node.erase → (evalDepCond env jobRec node').map Prod.fst = some v

def TrueOfAll (env : Env) (jobRec : Option JobRef) : DptNode → Prop
  | .job value leaf => ∀ jobs, visit env jobRec leaf = .jobs jobs →
      (evalJob env jobRec value leaf = some .DP_TRUE ↔
        selected env leaf jobs ≠ [] ∧ ∀ j ∈ selected env leaf jobs, satisfied env jobRec leaf j)
  | _ => True

/-- A job condition with an element or invalid at once, or a count; a time window keeps its status. -/
def HasElement (env : Env) (jobRec : Option JobRef) : DptNode → Prop
  | .job _ leaf =>
    match visit env jobRec leaf with
    | .crash => False
    | .invalid => True
    | .jobs jobs => selected env leaf jobs ≠ []
  | .window .. => False
  | _ => True

theorem failedValue_ne_true (leaf : JobLeaf) (jpbw : JobState) : failedValue leaf jpbw ≠ .DP_TRUE := by
  unfold failedValue
  split_ifs <;> decide

theorem evalElements_true_iff (leaf : JobLeaf) (jobs : List JobRef) :
    evalElements env jobRec leaf .DP_TRUE jobs = .DP_TRUE ↔ ∀ j ∈ jobs, satisfied env jobRec leaf j := by
  induction jobs with
  | nil => simp [evalElements]
  | cons j rest ih =>
    by_cases hj : satisfied env jobRec leaf j
    · simp [evalElements, hj, ih]
    · simp [evalElements, hj, failedValue_ne_true]

theorem evalElements_value (leaf : JobLeaf) (value : Value) {jobs : List JobRef} (h : jobs ≠ []) :
    evalElements env jobRec leaf value jobs = evalElements env jobRec leaf .DP_TRUE jobs := by
  cases jobs with
  | nil => exact absurd rfl h
  | cons j rest => rfl

theorem job_erase {node : DptNode} (h : node.erase = (DptNode.job value leaf).erase) :
    ∃ value', node = .job value' leaf := by
  cases node <;> simp_all [DptNode.erase]

/-- A condition on jobs is evaluated as it should be iff it has an element. -/
theorem job_sound_iff (value : Value) (leaf : JobLeaf) : Independent env jobRec (.job value leaf) ∧
    TrueOfAll env jobRec (.job value leaf) ↔ HasElement env jobRec (.job value leaf) := by
  cases hvis : visit env jobRec leaf with
  | crash =>
    have hn : ∀ value, evalJob env jobRec value leaf = none := fun value => by simp [evalJob, hvis]
    simp only [HasElement, hvis, iff_false]
    rintro ⟨⟨v, hv⟩, -⟩
    simpa [evalDepCond, hn] using hv (.job value leaf) rfl
  | invalid =>
    simp only [HasElement, hvis, iff_true]
    refine ⟨⟨.DP_INVALID, fun node' hn' => ?_⟩, fun jobs hj => by simp [hvis] at hj⟩
    obtain ⟨value', rfl⟩ := job_erase hn'
    simp [evalDepCond, evalJob, hvis]
  | jobs jobs =>
    have he : ∀ value, evalJob env jobRec value leaf = some (evalElements env jobRec leaf value (selected env leaf jobs)) :=
      fun value => by simp [evalJob, hvis]
    simp only [HasElement, hvis]
    constructor
    · rintro ⟨⟨v, hv⟩, -⟩ hemp
      -- the value that was kept comes out again
      have hkept : ∀ value', value' = v := fun value' => by
        simpa [evalDepCond, he, hemp, evalElements] using hv (.job value' leaf) rfl
      exact absurd ((hkept .DP_TRUE).trans (hkept .DP_FALSE).symm) (by decide)
    · intro hs
      refine ⟨⟨evalElements env jobRec leaf .DP_TRUE (selected env leaf jobs), fun node' hn' => ?_⟩, ?_⟩
      · obtain ⟨value', rfl⟩ := job_erase hn'
        simp [evalDepCond, he, evalElements_value leaf value' hs]
      · intro jobs' hj'
        obtain rfl : jobs = jobs' := by simpa [hvis] using hj'
        rw [he, evalElements_value leaf value hs, Option.some_inj, evalElements_true_iff]
        exact ⟨fun h => ⟨hs, h⟩, fun h => h.2⟩

theorem eval_or (hl : (evalDepCond env jobRec l).map Prod.fst = some lv)
    (hr : (evalDepCond env jobRec r).map Prod.fst = some rv) :
    (evalDepCond env jobRec (.or value l r)).map Prod.fst = some (orValue lv rv) := by
  obtain ⟨⟨lv, l'⟩, hl', rfl⟩ := Option.map_eq_some_iff.mp hl
  obtain ⟨⟨rv, r'⟩, hr', rfl⟩ := Option.map_eq_some_iff.mp hr
  simp only [evalDepCond, hl', hr', Option.bind_some, Option.map_some]
  split_ifs with hc
  · rcases hc with rfl | rfl <;> rfl
  · rfl

theorem eval_and (hl : (evalDepCond env jobRec l).map Prod.fst = some lv)
    (hr : (evalDepCond env jobRec r).map Prod.fst = some rv) :
    (evalDepCond env jobRec (.and value l r)).map Prod.fst = some (andValue lv rv) := by
  obtain ⟨⟨lv, l'⟩, hl', rfl⟩ := Option.map_eq_some_iff.mp hl
  obtain ⟨⟨rv, r'⟩, hr', rfl⟩ := Option.map_eq_some_iff.mp hr
  simp only [evalDepCond, hl', hr', Option.bind_some, Option.map_some]
  split_ifs with hc
  · rcases hc with rfl | rfl <;> rfl
  · rfl

theorem Independent.or (hl : Independent env jobRec l) (hr : Independent env jobRec r) :
    Independent env jobRec (.or value l r) := by
  obtain ⟨lv, hl⟩ := hl
  obtain ⟨rv, hr⟩ := hr
  refine ⟨orValue lv rv, fun node' hn' => ?_⟩
  cases node' with
  | or value' l' r' =>
    simp only [DptNode.erase, DptNode.or.injEq, true_and] at hn'
    exact eval_or (hl l' hn'.1) (hr r' hn'.2)
  | _ => simp [DptNode.erase] at hn'

theorem Independent.and (hl : Independent env jobRec l) (hr : Independent env jobRec r) :
    Independent env jobRec (.and value l r) := by
  obtain ⟨lv, hl⟩ := hl
  obtain ⟨rv, hr⟩ := hr
  refine ⟨andValue lv rv, fun node' hn' => ?_⟩
  cases node' with
  | and value' l' r' =>
    simp only [DptNode.erase, DptNode.and.injEq, true_and] at hn'
    exact eval_and (hl l' hn'.1) (hr r' hn'.2)
  | _ => simp [DptNode.erase] at hn'

theorem Independent.not (hl : Independent env jobRec l) : Independent env jobRec (.not value l) := by
  obtain ⟨lv, hl⟩ := hl
  refine ⟨notValue lv, fun node' hn' => ?_⟩
  cases node' with
  | not value' l' =>
    simp only [DptNode.erase, DptNode.not.injEq, true_and] at hn'
    obtain ⟨⟨lv, l''⟩, hl', rfl⟩ := Option.map_eq_some_iff.mp (hl l' hn')
    simp only [evalDepCond, hl', Option.map_some]
  | _ => simp [DptNode.erase] at hn'

theorem Independent.left_ (l r : DptNode) : Independent env jobRec (.left_ l r) := by
  refine ⟨.DP_FALSE, fun node' hn' => ?_⟩
  cases node' with
  | left_ l' r' => rfl
  | _ => simp [DptNode.erase] at hn'

/-- The status that is kept until the edge comes out. -/
theorem not_independent_window (value : Value) (w : TimeWindow) : ¬ Independent env jobRec (.window value w) := by
  rintro ⟨v, hv⟩
  have ho := hv (.window value { week := w.week, status := true }) rfl
  have hc := hv (.window value { week := w.week, status := false }) rfl
  simp only [evalDepCond, updateTimeWindow, or_true, if_true, Option.map_some] at ho hc
  exact absurd (ho.trans hc.symm) (by decide)

theorem Independent.num (value : Value) (leaf : NumLeaf) : Independent env jobRec (.num value leaf) := by
  refine ⟨(evalNum env leaf).1, fun node' hn' => ?_⟩
  cases node' with
  | num value' leaf' =>
    obtain rfl : leaf' = leaf := by simpa [DptNode.erase] using hn'
    rfl
  | _ => simp [DptNode.erase] at hn'

def Sound (env : Env) (jobRec : Option JobRef) (node : DptNode) : Prop :=
  Independent env jobRec node ∧ TrueOfAll env jobRec node

theorem DptNode.Each.root {node : DptNode} (h : node.Each P) : P node := by
  cases node with
  | job | window | num => exact h
  | not | and | or | left_ => exact h.1

def noElements : Env where
  jobs := fun _ => { jobId := 100, isArray := true }

end

section

variable {env : Env} {jobRec jpbw j : JobRef} {leaf : JobLeaf} {arrayIdx : Int} {jobs : List JobRef}

/-- The element of the other array with the index of the job, in memory or else saved. -/
def elementOf (env : Env) (jobRec jpbw : JobRef) (leaf : JobLeaf) : Option JobRef :=
  let arrayIdx := LSB_ARRAY_IDX (env.jobs jobRec).jobId
  (env.getJobData (LSB_JOBID (env.jobs jpbw).jobId arrayIdx)).or
    ((leaf.dptJobIdx.elim [] (·.depJobList)).find? fun j => arrayIdx = LSB_ARRAY_IDX (env.jobs j).jobId)

def elementValue (env : Env) (jobRec : JobRef) (leaf : JobLeaf) : Option JobRef → Value
  | none => .DP_INVALID
  | some j => if satisfied env (some jobRec) leaf j then .DP_TRUE else failedValue leaf (env.state j)

theorem scanSaved_found (h : (jobs.find? fun j => arrayIdx = LSB_ARRAY_IDX (env.jobs j).jobId) = some j) :
    scanSaved env arrayIdx jobs = .jobs [j] := by
  fun_induction scanSaved env arrayIdx jobs with
  | case1 => simp at h
  | case2 i =>
    obtain rfl : i = j := by simpa using List.mem_of_find?_eq_some h |> List.mem_singleton.mp |> Eq.symm
    rfl
  | case3 i rest hr hi =>
    rw [List.find?_cons_of_pos (by simpa using hi)] at h
    rw [Option.some.inj h]
  | case4 i rest hr hi ih =>
    rw [List.find?_cons_of_neg (by simpa using hi)] at h
    exact ih h

theorem scanSaved_cases (env : Env) (arrayIdx : Int) (jobs : List JobRef) :
    scanSaved env arrayIdx jobs = .crash ∨ ∃ j, scanSaved env arrayIdx jobs = .jobs [j] := by
  fun_induction scanSaved env arrayIdx jobs with
  | case1 => exact .inl rfl
  | case2 i => exact .inr ⟨i, rfl⟩
  | case3 i rest hr hi => exact .inr ⟨i, rfl⟩
  | case4 i rest hr hi ih => exact ih

theorem scanSaved_state (env : Env) (arrayIdx : Int) (jobs : List JobRef) (state : JobRef → JobState) :
    scanSaved { env with state } arrayIdx jobs = scanSaved env arrayIdx jobs := by
  fun_induction scanSaved env arrayIdx jobs with
  | case1 => rfl
  | case2 i => rfl
  | case3 i rest hr hi => rw [scanSaved, if_pos hi]; exact hr
  | case4 i rest hr hi ih => rw [scanSaved, if_neg hi, ih]; exact hr

theorem visitOneToOne_state (env : Env) (jobRec : Option JobRef) (jpbw : JobRef) (leaf : JobLeaf) (state : JobRef → JobState) :
    visitOneToOne { env with state } jobRec jpbw leaf = visitOneToOne env jobRec jpbw leaf := by
  simp only [visitOneToOne, scanSaved_state]

theorem visit_oneToOne (env : Env) (hr : leaf.dptJobRec = some jpbw) (ha : (env.jobs jpbw).isArray) (ho : leaf.oneToOne) :
    visit env (some jobRec) leaf = visitOneToOne env (some jobRec) jpbw leaf := by
  simp [visit, hr, ha, ho]

theorem evalJob_element (ho : leaf.oneToOne) (hv : visit env (some jobRec) leaf = .jobs [j]) (value : Value) :
    evalJob env (some jobRec) value leaf = some (elementValue env jobRec leaf (some j)) := by
  simp [evalJob, hv, selected, ho, evalElements, elementValue]

theorem elementValue_fresh (env : Env) (jobRec : JobRef) (leaf : JobLeaf) (j : JobRef) :
    elementValue { env with state := fun _ => {} } jobRec leaf (some j) = .DP_FALSE := by
  have hf : evalJobDep leaf {} (some {}) = false := by
    unfold evalJobDep
    cases leaf.dep <;> simp
  simp [elementValue, satisfied, hf, failedValue, Mask.isFinish]

/-- A one-to-one dependency is decided by its element iff there is one or no list was saved. -/
theorem oneToOne_iff (hrec : leaf.dptJobRec = some jpbw) (harray : (env.jobs jpbw).isArray) (hone : leaf.oneToOne) :
    (∀ state value, evalJob { env with state } (some jobRec) value leaf =
        some (elementValue { env with state } jobRec leaf (elementOf env jobRec jpbw leaf))) ↔
      elementOf env jobRec jpbw leaf ≠ none ∨ leaf.dptJobIdx = none := by
  have hv : ∀ state, visit { env with state } (some jobRec) leaf = visitOneToOne env (some jobRec) jpbw leaf :=
    fun state => (visit_oneToOne { env with state } hrec harray hone).trans (visitOneToOne_state env _ jpbw leaf state)
  have he : ∀ i, visitOneToOne env (some jobRec) jpbw leaf = .jobs [i] → ∀ state value,
      evalJob { env with state } (some jobRec) value leaf = some (elementValue { env with state } jobRec leaf (some i)) :=
    fun i hi state => evalJob_element hone ((hv state).trans hi)
  cases hmem : env.getJobData (LSB_JOBID (env.jobs jpbw).jobId (LSB_ARRAY_IDX (env.jobs jobRec).jobId)) with
  | some i =>
    have helem : elementOf env jobRec jpbw leaf = some i := by simp [elementOf, hmem]
    rw [helem]
    exact iff_of_true (he i (by simp [visitOneToOne, hmem])) (.inl (by simp))
  | none =>
    cases hi : leaf.dptJobIdx with
    | none =>
      have helem : elementOf env jobRec jpbw leaf = none := by simp [elementOf, hmem, hi]
      have hinv : visitOneToOne env (some jobRec) jpbw leaf = .invalid := by simp [visitOneToOne, hmem, hi]
      rw [helem]
      refine iff_of_true (fun state value => ?_) (.inr rfl)
      simp only [evalJob, hv, hinv, elementValue]
    | some dptJobIdx =>
      have hs : visitOneToOne env (some jobRec) jpbw leaf =
          scanSaved env (LSB_ARRAY_IDX (env.jobs jobRec).jobId) dptJobIdx.depJobList := by simp [visitOneToOne, hmem, hi]
      have helem : elementOf env jobRec jpbw leaf = dptJobIdx.depJobList.find? fun j =>
          LSB_ARRAY_IDX (env.jobs jobRec).jobId = LSB_ARRAY_IDX (env.jobs j).jobId := by simp [elementOf, hmem, hi]
      cases hf : elementOf env jobRec jpbw leaf with
      | some i => exact iff_of_true (he i (hs.trans (scanSaved_found (helem ▸ hf)))) (.inl (by simp))
      | none =>
        -- the last job of the list, which has another index, decides
        refine iff_of_false (fun h => ?_) (by simp)
        have hf := h (fun _ => {}) .DP_FALSE
        rcases scanSaved_cases env (LSB_ARRAY_IDX (env.jobs jobRec).jobId) dptJobIdx.depJobList with hlast | ⟨i, hlast⟩
        · simp only [evalJob, hv, hs, hlast] at hf
          cases hf
        · rw [he i (hs.trans hlast), elementValue_fresh] at hf
          cases hf

/-- Elements 3 and 1 of the second array depend on the first, of which element 1 was saved. -/
def twoArrays : Env where
  jobs := fun j =>
    if j = 0 then { jobId := 100, isArray := true }
    else if j = 1 then { jobId := LSB_JOBID 200 3 }
    else if j = 2 then { jobId := LSB_JOBID 100 1 }
    else { jobId := LSB_JOBID 200 1 }
  state := fun j => if j = 2 then { jStatus := { done := true }, endTime := 10 } else {}

/-- `done(100[*])`, with the saved element. -/
def doneOneToOne : JobLeaf where
  dep := .DONE
  dptJobRec := some 0
  oneToOne := true
  dptJobIdx := some { depJobList := [2] }

theorem oneToOne_saved : evalJob twoArrays (some 3) .DP_FALSE doneOneToOne =
      some (elementValue twoArrays 3 doneOneToOne (elementOf twoArrays 3 0 doneOneToOne)) := by
  have hs : elementOf twoArrays 3 0 doneOneToOne ≠ none := by decide
  exact (oneToOne_iff rfl rfl rfl).mpr (.inl hs) twoArrays.state .DP_FALSE

/-- Element 3 of the first array never existed, but element 1 decides the dependency. -/
theorem oneToOne_other_element :
    elementOf twoArrays 1 0 doneOneToOne = none ∧ evalJob twoArrays (some 1) .DP_FALSE doneOneToOne = some .DP_TRUE := by
  decide

end

end OpenLava.DepEval

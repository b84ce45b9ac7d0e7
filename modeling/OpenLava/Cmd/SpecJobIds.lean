import Mathlib.Data.List.Nodup
import OpenLava.Lib.IdxRange

/-!
# The job ids that a command is called with

`getSpecJobIds` of `cmd.jobid.c` collects the job ids of all arguments, each one once. `exit` ends the command with the
message.
-/

namespace OpenLava.SpecJobIds

open List JobId IdxRange Text

/-- The ids, and whether `options` is set to `CUR_JOB`. -/
structure SpecJobs where
  jobIds : List Int
  curJob : Bool := false
  deriving DecidableEq, Repr

def addJobId (jobIds : List Int) (jobId : Int) : List Int := if jobId ∈ jobIds then jobIds else jobIds ++ [jobId]

/-- The loop over the arguments; the id 0 ends it. `none`: the indexes outlast the fuel. -/
def specJobIdsLoop (fuel : Nat) (idxparse : IdxParse) : List (List Char) → List Int → Option (Except (List Char) SpecJobs)
  | [], jobIds => some (.ok { jobIds })
  | arg :: args, jobIds =>
    match getJobIdIndexList idxparse arg with
    | .error e => some (.error e)
    | .ok (jobId, some (idx :: idxs)) =>
      match indexLoops fuel (idx :: idxs) with
      | none => none
      | some js => specJobIdsLoop fuel idxparse args ((js.map (LSB_JOBID jobId)).foldl addJobId jobIds)
    | .ok (jobId, _) =>
      if jobId = 0 then some (.ok { jobIds := [], curJob := true })
      else specJobIdsLoop fuel idxparse args (addJobId jobIds jobId)

def getSpecJobIds (fuel : Nat) (idxparse : IdxParse) (argv : List (List Char)) : Option (Except (List Char) SpecJobs) :=
  specJobIdsLoop fuel idxparse argv []

inductive JobArg
  | plain (jobId : Int)
  | array (jobId : Int) (index : List Char)
  deriving DecidableEq, Repr

def JobArg.text : JobArg → List Char
  | .plain jobId => decimal jobId
  | .array jobId index => decimal jobId ++ '[' :: index

def JobArg.jobId : JobArg → Int
  | .plain jobId => jobId
  | .array jobId _ => jobId

def closed (idx : IdxList) : IdxList := if idx.stop = JobId.INFINIT_INT then { idx with stop := LSB_MAX_ARRAY_IDX } else idx

def JobArg.Denotes (idxparse : IdxParse) : JobArg → Int → Prop
  | .plain jobId, id => id = jobId
  | .array jobId index, id => ∃ idxList ∈ idxparse ('[' :: index), ∃ idx ∈ idxList, ∃ k : Nat,
      (closed idx).start + k * (closed idx).step ≤ (closed idx).stop ∧
      id = LSB_JOBID jobId ((closed idx).start + k * (closed idx).step)

structure InBounds (idx : IdxList) : Prop extends Upward (closed idx) where
  stop : (closed idx).stop ≤ LSB_MAX_ARRAY_IDX
  small : (closed idx).step ≤ LSB_MAX_ARRAY_IDX

def JobArg.Proper (idxparse : IdxParse) : JobArg → Prop
  | .plain _ => True
  | .array _ index => ∃ idxList ∈ idxparse ('[' :: index), idxList ≠ [] ∧ ∀ idx ∈ idxList, InBounds idx

variable {idxList : List IdxList}

theorem checkIdx_eq (idx : IdxList) : ∃ e₁ e₂ e₃ e₄, checkIdx idx =
    if (closed idx).start > (closed idx).stop then .error e₁ else if (closed idx).start ≤ 0 ∨
    (closed idx).start > LSB_MAX_ARRAY_IDX then .error e₂ else if (closed idx).stop ≤ 0 ∨
    (closed idx).stop > LSB_MAX_ARRAY_IDX then .error e₃ else if (closed idx).step ≤ 0 ∨
    (closed idx).step > LSB_MAX_ARRAY_IDX then .error e₄ else .ok (closed idx) :=
  ⟨_, _, _, _, rfl⟩

theorem checkIdx_inBounds {idx : IdxList} (h : InBounds idx) : checkIdx idx = .ok (closed idx) := by
  obtain ⟨e1, e2, e3, e4, heq⟩ := checkIdx_eq idx
  obtain ⟨⟨hstart, horder, hstep⟩, hstop, hsmall⟩ := h
  rw [heq, if_neg (by omega), if_neg (by omega), if_neg (by omega), if_neg (by omega)]

theorem checkIdx_error {idx : IdxList} (h : ¬InBounds idx) : ∃ e, checkIdx idx = .error e := by
  obtain ⟨e1, e2, e3, e4, heq⟩ := checkIdx_eq idx
  rw [heq]
  by_cases h1 : (closed idx).start > (closed idx).stop
  · exact ⟨e1, if_pos h1⟩
  rw [if_neg h1]
  by_cases h2 : (closed idx).start ≤ 0 ∨ (closed idx).start > LSB_MAX_ARRAY_IDX
  · exact ⟨e2, if_pos h2⟩
  rw [if_neg h2]
  by_cases h3 : (closed idx).stop ≤ 0 ∨ (closed idx).stop > LSB_MAX_ARRAY_IDX
  · exact ⟨e3, if_pos h3⟩
  rw [if_neg h3]
  by_cases h4 : (closed idx).step ≤ 0 ∨ (closed idx).step > LSB_MAX_ARRAY_IDX
  · exact ⟨e4, if_pos h4⟩
  exact absurd ⟨⟨by omega, by omega, by omega⟩, by omega, by omega⟩ h

theorem mapM_checkIdx {l : List IdxList} (h : ∀ idx ∈ l, InBounds idx) : l.mapM checkIdx = .ok (l.map closed) := by
  induction l with
  | nil => rfl
  | cons idx l ih =>
    rw [forall_mem_cons] at h
    rw [mapM_cons, checkIdx_inBounds h.1, ih h.2]
    rfl

theorem mapM_checkIdx_error {l : List IdxList} (h : ¬∀ idx ∈ l, InBounds idx) : ∃ e, l.mapM checkIdx = .error e := by
  induction l with
  | nil => simp at h
  | cons idx l ih =>
    by_cases hi : InBounds idx
    · obtain ⟨e, he⟩ := ih fun ha => h (forall_mem_cons.mpr ⟨hi, ha⟩)
      exact ⟨e, by rw [mapM_cons, checkIdx_inBounds hi, he]; rfl⟩
    · obtain ⟨e, he⟩ := checkIdx_error hi
      exact ⟨e, by rw [mapM_cons, he]; rfl⟩

theorem notBracket_decimal (jobId : Int) : ∀ c ∈ decimal jobId, decide (c ≠ '[') = true := by
  intro c hc
  have hne : c ≠ '[' := fun h => bracket_notMem_decimal jobId (h ▸ hc)
  simpa using hne

section

variable (hpos : 0 < jobId) (hint : jobId ≤ JobId.INFINIT_INT)

include hpos hint

theorem isint_jobId : isint_ (decimal jobId) = true ∧ atoi (decimal jobId) = jobId := by
  simp only [JobId.INFINIT_INT] at hint
  have hs : int jobId = jobId := int_of_range (by omega) (by omega)
  refine ⟨(isint_decimal (by omega) (by omega)).mpr ?_, ?_⟩
  · rw [hs, JobId.INFINIT_INT]
    omega
  · rw [atoi, strtol_decimal (by omega) (by omega), hs]

theorem getJobIdIndexList_plain (idxparse : IdxParse) : getJobIdIndexList idxparse (decimal jobId) = .ok (jobId, none) := by
  obtain ⟨hi, ha⟩ := isint_jobId hpos hint
  have ht : inJobIdStr (decimal jobId) = decimal jobId := by simp [inJobIdStr, hi]
  simp only [getJobIdIndexList, ht, bracket_notMem_decimal, not_false_iff, if_true, ha, hi, Bool.true_eq_false,
    if_false]
  rw [if_neg (by omega)]

theorem getJobIdIndexList_array (idxparse : IdxParse) (index : List Char) :
    getJobIdIndexList idxparse (decimal jobId ++ '[' :: index) =
      (parseJobArrayIndex idxparse (decimal jobId ++ '[' :: index)).map fun idxList => (jobId, some idxList) := by
  obtain ⟨hi, ha⟩ := isint_jobId hpos hint
  have ht : (decimal jobId ++ '[' :: index).takeWhile (· ≠ '[') = decimal jobId := by
    rw [takeWhile_append_of_pos (notBracket_decimal jobId)]
    simp
  have hs : (decimal jobId).length < 16 := by
    simp only [JobId.INFINIT_INT] at hint
    rw [decimal, if_neg (by omega)]
    exact Nat.lt_succ_of_le ((Nat.length_toDigits_le_iff (by decide) (by decide)).mpr (by omega))
  have htext : inJobIdStr (decimal jobId ++ '[' :: index) = decimal jobId ++ '[' :: index := by simp [inJobIdStr]
  simp only [getJobIdIndexList, htext, ht, ha, hi, LSB_MAX_ARRAY_JOBID]
  rw [if_neg (by simp), if_neg (by omega), if_neg (by decide), if_neg (by omega)]
  cases parseJobArrayIndex idxparse (decimal jobId ++ '[' :: index) <;> rfl

end

theorem dropWhile_bracket (jobId : Int) (index : List Char) :
    (decimal jobId ++ '[' :: index).dropWhile (· ≠ '[') = '[' :: index := by
  rw [dropWhile_append_of_pos (notBracket_decimal jobId)]
  simp

variable {fuel : Nat}

theorem parseJobArrayIndex_closed {jobId : Int} {index : List Char}
    (hpar : idxparse ('[' :: index) = some idxList) (ha : ∀ idx ∈ idxList, InBounds idx) :
    parseJobArrayIndex idxparse (decimal jobId ++ '[' :: index) = .ok (idxList.map closed) := by
  simp only [parseJobArrayIndex, dropWhile_bracket, hpar]
  exact mapM_checkIdx ha

theorem parseJobArrayIndex_error (hs : ∀ text, idxparse text ≠ some []) {jobId : Int} {index : List Char}
    (h : ¬(JobArg.array jobId index).Proper idxparse) :
    ∃ e, parseJobArrayIndex idxparse (decimal jobId ++ '[' :: index) = .error e := by
  simp only [parseJobArrayIndex, dropWhile_bracket]
  cases hpar : idxparse ('[' :: index) with
  | none => exact ⟨_, rfl⟩
  | some idxList =>
    refine mapM_checkIdx_error fun ha => h ⟨idxList, hpar, ?_, ha⟩
    rintro rfl
    exact hs _ hpar

theorem mem_addJobId {jobId id : Int} : id ∈ addJobId jobIds jobId ↔ id ∈ jobIds ∨ id = jobId := by
  unfold addJobId
  split
  case isTrue h =>
    constructor
    · exact Or.inl
    · rintro (h' | rfl)
      · exact h'
      · exact h
  case isFalse => simp

theorem nodup_addJobId (h : jobIds.Nodup) (jobId : Int) : (addJobId jobIds jobId).Nodup := by
  unfold addJobId
  split
  case isTrue => exact h
  case isFalse hn =>
    refine nodup_append.mpr ⟨h, nodup_singleton jobId, ?_⟩
    rintro a ha b hb rfl
    exact hn (mem_singleton.mp hb ▸ ha)

theorem foldl_addJobId (new : List Int) (h : jobIds.Nodup) :
    (new.foldl addJobId jobIds).Nodup ∧ ∀ id, id ∈ new.foldl addJobId jobIds ↔ id ∈ jobIds ∨ id ∈ new := by
  induction new generalizing jobIds with
  | nil => simpa using h
  | cons jobId new ih =>
    obtain ⟨hn, hmem⟩ := ih (nodup_addJobId h jobId)
    refine ⟨hn, fun id => ?_⟩
    rw [foldl_cons, hmem, mem_addJobId, mem_cons, or_assoc]

theorem mem_indexes_closed (ha : ∀ idx ∈ idxList, InBounds idx) {jobId id : Int} :
    id ∈ ((idxList.map closed).flatMap indexes).map (LSB_JOBID jobId) ↔ ∃ idx ∈ idxList, ∃ k : Nat,
      (closed idx).start + k * (closed idx).step ≤ (closed idx).stop ∧
      id = LSB_JOBID jobId ((closed idx).start + k * (closed idx).step) := by
  simp only [mem_map, mem_flatMap]
  constructor
  · rintro ⟨j, ⟨_, ⟨idx, hi, rfl⟩, hj⟩, rfl⟩
    obtain ⟨k, rfl, hk⟩ := (mem_indexes (ha idx hi).toUpward).mp hj
    exact ⟨idx, hi, k, hk, rfl⟩
  · rintro ⟨idx, hi, k, hk, rfl⟩
    exact ⟨_, ⟨_, ⟨idx, hi, rfl⟩, (mem_indexes (ha idx hi).toUpward).mpr ⟨k, rfl, hk⟩⟩, rfl⟩

theorem indexLoops_closed (ha : ∀ idx ∈ idxList, InBounds idx) (hf : LSB_MAX_ARRAY_IDX < fuel) :
    indexLoops fuel (idxList.map closed) = some ((idxList.map closed).flatMap indexes) := by
  refine indexLoops_eq fun _ hmem => ?_
  obtain ⟨idx, hi, rfl⟩ := mem_map.mp hmem
  have hstop := (ha idx hi).stop
  have hs := (ha idx hi).small
  simp only [LSB_MAX_ARRAY_IDX] at hstop hs hf
  exact ⟨(ha idx hi).toUpward, by omega, by omega⟩

/-- A proper argument adds the ids it denotes, any other one ends the command. -/
theorem specJobIdsLoop_cons (hs : ∀ text, idxparse text ≠ some []) (hf : LSB_MAX_ARRAY_IDX < fuel) {arg : JobArg}
    (hid : 0 < arg.jobId ∧ arg.jobId ≤ JobId.INFINIT_INT) (args : List (List Char)) (hn : jobIds.Nodup) :
    (arg.Proper idxparse → ∃ jobIds', specJobIdsLoop fuel idxparse (arg.text :: args) jobIds =
        specJobIdsLoop fuel idxparse args jobIds' ∧ jobIds'.Nodup ∧
        ∀ id, id ∈ jobIds' ↔ id ∈ jobIds ∨ arg.Denotes idxparse id) ∧
    (¬arg.Proper idxparse → ∃ e, specJobIdsLoop fuel idxparse (arg.text :: args) jobIds = some (.error e)) := by
  cases arg with
  | plain jobId =>
    refine ⟨fun _ => ⟨addJobId jobIds jobId, ?_, nodup_addJobId hn jobId, fun id => mem_addJobId⟩,
      fun h => absurd trivial h⟩
    have hne : jobId ≠ 0 := ne_of_gt hid.1
    have hlist : getJobIdIndexList idxparse (decimal jobId) = .ok (jobId, none) :=
      getJobIdIndexList_plain hid.1 hid.2 idxparse
    simp only [specJobIdsLoop, JobArg.text, hlist, if_neg hne]
  | array jobId index =>
    constructor
    · rintro ⟨idxList, hpar, hne, ha⟩
      have hlist := getJobIdIndexList_array hid.1 hid.2 idxparse index
      rw [JobArg.jobId, parseJobArrayIndex_closed hpar ha] at hlist
      have hl := indexLoops_closed ha hf
      obtain ⟨hn', hmem⟩ := foldl_addJobId (((idxList.map closed).flatMap indexes).map (LSB_JOBID jobId)) hn
      refine ⟨_, ?_, hn', fun id => ?_⟩
      · obtain ⟨idx, idxs, rfl⟩ := exists_cons_of_ne_nil hne
        rw [map_cons] at hlist hl
        simp only [specJobIdsLoop, JobArg.text, hlist, Except.map, hl]
        rfl
      · rw [hmem, mem_indexes_closed ha]
        refine or_congr_right ⟨fun h => ⟨idxList, hpar, h⟩, ?_⟩
        rintro ⟨idxList', hpar', h⟩
        cases Option.some.inj (hpar.symm.trans hpar')
        exact h
    · intro h
      obtain ⟨e, he⟩ := parseJobArrayIndex_error hs h
      have hlist := getJobIdIndexList_array hid.1 hid.2 idxparse index
      rw [JobArg.jobId, he] at hlist
      exact ⟨e, by simp only [specJobIdsLoop, JobArg.text, hlist, Except.map]⟩

/-- With proper arguments exactly the ids denoted, once each; else a message. -/
def Right (fuel : Nat) (idxparse : IdxParse) (args : List JobArg) : Prop :=
  ((∀ arg ∈ args, arg.Proper idxparse) → ∃ jobIds,
    getSpecJobIds fuel idxparse (args.map JobArg.text) = some (.ok { jobIds }) ∧ jobIds.Nodup ∧
    ∀ id, id ∈ jobIds ↔ ∃ arg ∈ args, arg.Denotes idxparse id) ∧
  ((¬∀ arg ∈ args, arg.Proper idxparse) →
    ∃ e, getSpecJobIds fuel idxparse (args.map JobArg.text) = some (.error e))

theorem getSpecJobIds_right (hsome : ∀ text, idxparse text ≠ some []) (hfuel : LSB_MAX_ARRAY_IDX < fuel)
    {args : List JobArg} (hids : ∀ arg ∈ args, 0 < arg.jobId ∧ arg.jobId ≤ JobId.INFINIT_INT) :
    Right fuel idxparse args := by
  suffices hl : ∀ jobIds : List Int, jobIds.Nodup →
      ((∀ arg ∈ args, arg.Proper idxparse) → ∃ jobIds',
        specJobIdsLoop fuel idxparse (args.map JobArg.text) jobIds = some (.ok { jobIds := jobIds' }) ∧ jobIds'.Nodup ∧
        ∀ id, id ∈ jobIds' ↔ id ∈ jobIds ∨ ∃ arg ∈ args, arg.Denotes idxparse id) ∧
      ((¬∀ arg ∈ args, arg.Proper idxparse) →
        ∃ e, specJobIdsLoop fuel idxparse (args.map JobArg.text) jobIds = some (.error e)) by
    simpa [Right, getSpecJobIds] using hl [] nodup_nil
  induction args with
  | nil => exact fun jobIds hn => ⟨fun _ => ⟨jobIds, rfl, hn, by simp⟩, fun h => absurd (by simp) h⟩
  | cons arg args ih =>
    rw [forall_mem_cons] at hids
    intro jobIds hn
    obtain ⟨hpro, hb⟩ := specJobIdsLoop_cons hsome hfuel hids.1 (args.map JobArg.text) hn
    rw [map_cons, forall_mem_cons]
    by_cases ha : arg.Proper idxparse
    · obtain ⟨jobIds', heq, hn', hmem⟩ := hpro ha
      obtain ⟨hr, hrestBad⟩ := ih hids.2 jobIds' hn'
      rw [heq]
      refine ⟨fun h => ?_, fun h => hrestBad fun hall => h ⟨ha, hall⟩⟩
      obtain ⟨jobIds'', heq', hn'', hmem'⟩ := hr h.2
      refine ⟨jobIds'', heq', hn'', fun id => ?_⟩
      rw [hmem', hmem, or_assoc, exists_mem_cons_iff]
    · exact ⟨fun h => absurd h.1 ha, fun _ => hb ha⟩

/-- A job id as the commands print it: a `LS_LONG_INT`, and an array's in front of an index list. -/
def JobArg.IsId : JobArg → Prop
  | .plain jobId => 0 ≤ jobId ∧ jobId < 2 ^ 63
  | .array jobId _ => 0 < jobId ∧ jobId ≤ JobId.INFINIT_INT

/-- A plain id of more than an `int` is read as another one, and 0 as none. -/
theorem right_plain (h : Right fuel idxparse [.plain jobId]) (hid : (JobArg.plain jobId).IsId) :
    0 < jobId ∧ jobId ≤ JobId.INFINIT_INT := by
  by_contra hout
  obtain ⟨jobIds, hr, -, hmem⟩ := h.1 (by simp [JobArg.Proper])
  have hin : jobId ∈ jobIds := (hmem jobId).mpr ⟨_, mem_cons_self, rfl⟩
  rcases eq_or_lt_of_le hid.1 with hz | hpos
  · subst hz
    simp [getSpecJobIds, specJobIdsLoop, JobArg.text, show getJobIdIndexList idxparse (decimal 0) = .ok (0, none) from rfl] at hr
  · have hlarge : INFINIT_LONG_INT < jobId := by
      simp only [hpos, true_and, not_le] at hout
      exact hout
    have hread := getJobIdIndexList_decimal idxparse hlarge hid.2
    have hint : int jobId ≠ jobId := fun hs => by
      have := Int.bmod_lt (x := jobId) (m := 2 ^ 32) (by decide)
      simp only [int, INFINIT_LONG_INT] at hs hlarge
      omega
    have hloop : jobIds = [int jobId] := by
      simp only [getSpecJobIds, map_cons, map_nil, specJobIdsLoop, JobArg.text, hread] at hr
      by_cases hneg : int jobId < 0 <;> by_cases hzero : int jobId = 0 <;> simp [hneg, hzero, addJobId] at hr
      exact hr.symm
    exact hint (mem_singleton.mp (hloop ▸ hin)).symm

/-- The ids of all lists made of these arguments are taken rightly exactly if these are positive `int`s. -/
theorem getSpecJobIds_right_iff (hsome : ∀ text, idxparse text ≠ some []) (hfuel : LSB_MAX_ARRAY_IDX < fuel)
    (args : List JobArg) (hids : ∀ arg ∈ args, arg.IsId) :
    (∀ argv ⊆ args, Right fuel idxparse argv) ↔ ∀ arg ∈ args, 0 < arg.jobId ∧ arg.jobId ≤ JobId.INFINIT_INT := by
  refine ⟨fun h arg ha => ?_, fun h argv hsub => getSpecJobIds_right hsome hfuel fun arg ha => h arg (hsub ha)⟩
  cases arg with
  | plain jobId => exact right_plain (h [.plain jobId] (by simpa using ha)) (hids _ ha)
  | array jobId index => exact hids _ ha

def oneList : IdxParse := fun text => if text = "[1-5:2,3]".toList then some [⟨1, 5, 2⟩, ⟨3, 3, 1⟩] else none

def overlapping : List JobArg := [.plain 7, .array 9 "1-5:2,3]".toList, .plain 7]

theorem overlapping_proper : ∀ arg ∈ overlapping, arg.Proper oneList := by
  have hr : ∀ idx ∈ [(⟨1, 5, 2⟩ : IdxList), ⟨3, 3, 1⟩], InBounds idx := by
    intro idx hi
    rcases mem_pair.mp hi with rfl | rfl <;> exact ⟨⟨by decide, by decide, by decide⟩, by decide, by decide⟩
  intro arg ha
  simp only [overlapping, mem_cons, not_mem_nil, or_false] at ha
  rcases ha with rfl | rfl | rfl
  · trivial
  · exact ⟨_, rfl, by decide, hr⟩
  · trivial

theorem getSpecJobIds_overlapping : ∃ jobIds,
    getSpecJobIds 70000 oneList (overlapping.map JobArg.text) = some (.ok { jobIds }) ∧ jobIds.Nodup ∧
    ∀ id, id ∈ jobIds ↔ ∃ arg ∈ overlapping, arg.Denotes oneList id := by
  have hs : ∀ text, oneList text ≠ some [] := by
    intro text
    unfold oneList
    split <;> simp
  have hids : ∀ arg ∈ overlapping, arg.IsId := by simp [overlapping, JobArg.IsId, JobId.INFINIT_INT]
  exact ((getSpecJobIds_right_iff hs (by decide) overlapping hids).mpr (by decide) overlapping (Subset.refl _)).1
    overlapping_proper

/-- `12884901895` is element 3 of array 7 and is taken for array 7; the id 0 drops the ids before it. -/
theorem getSpecJobIds_not_denotes :
    getSpecJobIds 70000 oneList [(JobArg.plain 12884901895).text] = some (.ok { jobIds := [7] }) ∧
    ¬(JobArg.plain 12884901895).Denotes oneList 7 ∧
    getSpecJobIds 70000 oneList [(JobArg.plain 5).text, (JobArg.plain 0).text] =
      some (.ok { jobIds := [], curJob := true }) :=
  ⟨by rfl, by simp [JobArg.Denotes], by rfl⟩

end OpenLava.SpecJobIds

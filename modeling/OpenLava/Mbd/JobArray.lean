import OpenLava.Lib.IdxRange

/-!
# The indexes of a job array

The grammar of `idx.y` makes ranges of an index list such as `[1-9:2,20]%5`. `parseJobArrayIndex` of `mbd.jarray.c`
closes open ranges and checks the bounds and the number of elements in `int` arithmetic; `handleNewJobArray` counts
through each range in an `int` as well.
-/

namespace OpenLava.JobArray

open List

open JobId (IdxList int LSB_MAX_ARRAY_IDX)
open IdxRange

/-- The alternatives for `region`, with the numbers that `atoi` made. -/
inductive Region
  | one (icon : Int)
  | upTo (icon : Int)
  | onFrom (icon : Int)
  | between (first last : Int)
  deriving DecidableEq, Repr

def Region.start : Region → Int
  | .one i => i
  | .upTo _ => 1
  | .onFrom i => i
  | .between i _ => i

def Region.stop : Region → Int
  | .one i => i
  | .upTo i => i
  | .onFrom _ => JobId.INFINIT_INT
  | .between _ i => i

/-- `index`, with the number behind a colon. -/
structure Index where
  region : Region
  step : Option Int := none
  deriving DecidableEq, Repr

/-- `arrayIndSpec`, with the number behind a percent sign. -/
structure ArrayIndSpec where
  indcies : List Index
  limit : Option Int := none
  deriving DecidableEq, Repr

/-- The action for `index`; a boundary error aborts the parser. -/
def Index.reduce (ix : Index) : Option IdxList :=
  let step := ix.step.getD 1
  if ix.region.start < 1 ∨ ix.region.start > ix.region.stop ∨ step ≤ 0 then none
  else some ⟨ix.region.start, ix.region.stop, step⟩

/-- The tokens of an `index` on the stack of the parser at one time. -/
def Index.depth (ix : Index) : Nat :=
  let depth := match ix.region with
    | .one _ => 1
    | .upTo _ | .onFrom _ => 2
    | .between _ _ => 3
  if ix.step.isSome then max depth 3 else depth

def YYMAXDEPTH : Nat := 150

def stackFits (indcies : List Index) : Prop := ∀ p ∈ indcies.zipIdx, 2 + 2 * p.2 + p.1.depth ≤ YYMAXDEPTH

instance : DecidablePred stackFits := fun _ => inferInstanceAs (Decidable (∀ _ ∈ _, _))

/-- Fails for an empty list, too many ranges or bad bounds. -/
def idxparse (spec : ArrayIndSpec) : Option (List IdxList) :=
  if spec.indcies ≠ [] ∧ stackFits spec.indcies then spec.indcies.mapM Index.reduce else none

/-- The errors that `parseJobArrayIndex` reports. -/
inductive LsbError
  | BAD_JOB
  | BAD_IDX
  | BIG_IDX
  deriving DecidableEq, Repr

structure Checked where
  error : Option LsbError := none
  arraySize : Int := 0
  deriving DecidableEq, Repr

def closeIdx (maxJobArraySize : Int) (idx : IdxList) : IdxList :=
  if idx.stop = JobId.INFINIT_INT then
    { idx with stop := int (idx.start + int (int (maxJobArraySize - 1) * idx.step)) }
  else idx

def checkIdx (replay : Bool) (c : Checked) (idx : IdxList) : Checked where
  error :=
    if ¬replay ∧ idx.stop ≥ LSB_MAX_ARRAY_IDX then some .BIG_IDX
    else if idx.start > idx.stop then some .BAD_IDX
    else if idx.start < 1 ∨ idx.step < 1 then some .BAD_IDX
    else c.error
  arraySize := int (c.arraySize + int ((int (idx.stop - idx.start)).tdiv idx.step + 1))

/-- `parseJobArrayIndex` for a name with a bracket: the ranges and the job limit. -/
def parseJobArrayIndex (replay : Bool) (maxJobArraySize : Int) (spec : ArrayIndSpec) :
    Except LsbError (List IdxList × Int) :=
  match idxparse spec with
  | none => .error .BAD_JOB
  | some idxList =>
    let idxList := idxList.map (closeIdx maxJobArraySize)
    let c := idxList.foldl (checkIdx replay) {}
    let error := if ¬replay ∧ c.arraySize > maxJobArraySize then some .BIG_IDX else c.error
    match error with
    | some e => .error e
    | none => .ok (idxList, spec.limit.getD JobId.INFINIT_INT)

structure Good (idx : IdxList) : Prop extends Upward idx where
  stop : idx.stop < LSB_MAX_ARRAY_IDX

theorem checkIdx_error : (checkIdx false c idx).error = none ↔ Good idx ∧ c.error = none := by
  simp only [checkIdx]
  split
  case isTrue h => exact iff_of_false (by simp) fun hg => not_lt.mpr h.2 hg.1.stop
  case isFalse h =>
    split
    case isTrue h' => exact iff_of_false (by simp) fun hg => not_lt.mpr hg.1.order h'
    case isFalse h' =>
      split
      case isTrue h'' =>
        refine iff_of_false (by simp) fun hg => ?_
        have hs := hg.1.start
        have hs := hg.1.step
        omega
      case isFalse h'' =>
        have hg : Good idx := ⟨⟨by omega, by omega, by omega⟩, by simpa using h⟩
        simp [hg]

/-- No addition of the loop overflows unless there are too many elements. -/
theorem foldl_checkIdx {l : List IdxList} (h : (l.foldl (checkIdx false) c).error = none)
    (hc : 0 ≤ c.arraySize) (hf : c.arraySize + LSB_MAX_ARRAY_IDX * l.length < 2 ^ 31) :
    (∀ idx ∈ l, Good idx) ∧ (l.foldl (checkIdx false) c).arraySize = c.arraySize + (l.map numIndexes).sum := by
  have hs : ∀ (l : List IdxList) (c : Checked), (l.foldl (checkIdx false) c).error = none → c.error = none := by
    intro l
    induction l with
    | nil => exact fun _ h => h
    | cons idx l ih => exact fun c h => (checkIdx_error.mp (ih _ h)).2
  induction l generalizing c with
  | nil => simp
  | cons idx l ih =>
    rw [foldl_cons] at h ⊢
    have hg : Good idx := (checkIdx_error.mp (hs l _ h)).1
    obtain ⟨ho, hmany⟩ := hg.toUpward.numIndexes_bounds
    have hb := hg.stop
    have hs : (checkIdx false c idx).arraySize = c.arraySize + numIndexes idx := by
      have hsta := hg.start
      have ho := hg.order
      simp only [LSB_MAX_ARRAY_IDX, length_cons, Nat.cast_add, Nat.cast_one] at hb hf
      have hd : (int (idx.stop - idx.start)).tdiv idx.step + 1 = numIndexes idx := by
        rw [int_of_range (by omega) (by omega), Int.tdiv_eq_ediv_of_nonneg (by omega), numIndexes]
      simp only [checkIdx, hd]
      rw [int_of_range (n := numIndexes idx) (by omega) (by omega), int_of_range (by omega) (by omega)]
    obtain ⟨ha, hsum⟩ := ih h (by omega) (by
      rw [hs]
      simp only [LSB_MAX_ARRAY_IDX, length_cons, Nat.cast_add, Nat.cast_one] at hb hf ⊢
      omega)
    refine ⟨forall_mem_cons.mpr ⟨hg, ha⟩, ?_⟩
    rw [hsum, hs, map_cons, sum_cons, add_assoc]

theorem Index.depth_pos (ix : Index) : 0 < ix.depth := by
  obtain ⟨region, step⟩ := ix
  cases region <;> cases step <;> simp [Index.depth]

theorem length_le_of_stackFits {indcies : List Index} (h : stackFits indcies) : indcies.length ≤ 74 := by
  by_contra hl
  have hmem : (indcies.get ⟨74, by omega⟩, 74) ∈ indcies.zipIdx :=
    mem_zipIdx_iff_getElem?.mpr (List.getElem?_eq_getElem _)
  have hf := h _ hmem
  have hpos := Index.depth_pos (indcies.get ⟨74, by omega⟩)
  simp only [YYMAXDEPTH] at hf
  omega

theorem length_of_mapM {f : α → Option β} {xs : List α} {ys : List β} (h : xs.mapM f = some ys) :
    ys.length = xs.length := by
  induction xs generalizing ys with
  | nil =>
    cases h
    rfl
  | cons x xs ih =>
    rw [mapM_cons] at h
    obtain ⟨y, -, h⟩ := Option.bind_eq_some_iff.mp h
    obtain ⟨ys', hys, h⟩ := Option.bind_eq_some_iff.mp h
    cases h
    rw [length_cons, length_cons, ih hys]

theorem length_le_of_idxparse (h : idxparse spec = some l) : l.length ≤ 74 := by
  unfold idxparse at h
  split at h
  case isTrue hf =>
    rw [length_of_mapM h]
    exact length_le_of_stackFits hf.2
  case isFalse => cases h

theorem parseJobArrayIndex_ok (h : parseJobArrayIndex false maxJobArraySize spec = .ok (l, limit)) : l.length ≤ 74 ∧
    (l.foldl (checkIdx false) {}).error = none ∧ (l.foldl (checkIdx false) {}).arraySize ≤ maxJobArraySize := by
  unfold parseJobArrayIndex at h
  cases hpar : idxparse spec with
  | none =>
    rw [hpar] at h
    cases h
  | some ranges =>
    simp only [hpar, Bool.false_eq_true, not_false_eq_true, true_and] at h
    split at h
    case h_1 => cases h
    case h_2 he =>
      obtain ⟨rfl, -⟩ := Prod.mk.inj (Except.ok.inj h)
      split at he
      case isTrue => cases he
      case isFalse hs =>
        rw [length_map]
        exact ⟨length_le_of_idxparse hpar, he, not_lt.mp hs⟩

/-- What is accepted outside the replay is in bounds and not too long. -/
theorem parseJobArrayIndex_bounds {spec : ArrayIndSpec} {maxJobArraySize limit : Int} {l : List IdxList}
    (h : parseJobArrayIndex false maxJobArraySize spec = .ok (l, limit)) :
    (∀ idx ∈ l, ∀ i ∈ indexes idx, 1 ≤ i ∧ i ≤ LSB_MAX_ARRAY_IDX - 1) ∧
    ((l.flatMap indexes).length : Int) ≤ maxJobArraySize := by
  obtain ⟨hf, he, hs⟩ := parseJobArrayIndex_ok h
  obtain ⟨hg, hsum⟩ := foldl_checkIdx he le_rfl (by simp only [LSB_MAX_ARRAY_IDX]; omega)
  have hup : ∀ idx ∈ l, Upward idx := fun idx hidx => (hg idx hidx).toUpward
  refine ⟨fun idx hidx i hi => ?_, ?_⟩
  · obtain ⟨k, rfl, hle⟩ := (mem_indexes (hup idx hidx)).mp hi
    have hsta := (hg idx hidx).start
    have hstop := (hg idx hidx).stop
    have hn : 0 ≤ (k : Int) * idx.step := mul_nonneg (by omega) (by linarith [(hg idx hidx).step])
    omega
  · rw [flatMap_indexes_length hup]
    simpa [hsum] using hs

/-- `[1-9:4,20]`. -/
def twoRanges : ArrayIndSpec := { indcies := [⟨.between 1 9, some 4⟩, ⟨.one 20, none⟩] }

theorem parseJobArrayIndex_twoRanges :
    parseJobArrayIndex false 1000 twoRanges = .ok ([⟨1, 9, 4⟩, ⟨20, 20, 1⟩], JobId.INFINIT_INT) ∧
    (([⟨1, 9, 4⟩, ⟨20, 20, 1⟩].flatMap indexes).length : Int) ≤ 1000 :=
  ⟨by rfl, (@parseJobArrayIndex_bounds twoRanges 1000 JobId.INFINIT_INT _ (by rfl)).2⟩

/-- The replay checks nothing. -/
theorem parseJobArrayIndex_replay :
    parseJobArrayIndex true 1 { indcies := [⟨.between 70000 70001, none⟩] } = .ok ([⟨70000, 70001, 1⟩], JobId.INFINIT_INT) ∧
      indexes ⟨70000, 70001, 1⟩ = [70000, 70001] ∧ LSB_MAX_ARRAY_IDX - 1 < 70000 :=
  ⟨by rfl, by decide, by decide⟩

/-- `handleNewJobArray` makes elements for these indexes, if its counter can pass the end of each range. -/
theorem indexLoops_of_accepted {spec : ArrayIndSpec} {maxJobArraySize limit : Int} {l : List IdxList}
    (h : parseJobArrayIndex false maxJobArraySize spec = .ok (l, limit))
    (hstep : ∀ idx ∈ l, idx.stop + idx.step < 2 ^ 31) : ∃ fuel, indexLoops fuel l = some (l.flatMap indexes) := by
  obtain ⟨hf, he, hs⟩ := parseJobArrayIndex_ok h
  obtain ⟨hg, hsum⟩ := foldl_checkIdx he le_rfl (by simp only [LSB_MAX_ARRAY_IDX]; omega)
  exact ⟨LSB_MAX_ARRAY_IDX.toNat, indexLoops_eq fun idx hidx =>
    ⟨(hg idx hidx).toUpward, hstep idx hidx, (hg idx hidx).stop⟩⟩

/-- In `[1-5:2147483647]` it cannot. -/
example : parseJobArrayIndex false 1 { indcies := [⟨.between 1 5, some 2147483647⟩] } =
      .ok ([⟨1, 5, 2147483647⟩], JobId.INFINIT_INT) ∧
    indexLoops 4 [⟨1, 5, 2147483647⟩] = some [1, -2147483648, -1] :=
  ⟨by rfl, by rfl⟩

end OpenLava.JobArray

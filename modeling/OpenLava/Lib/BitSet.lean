import Mathlib.Algebra.Order.Ring.Int
import OpenLava.WordMask

/-!
# The bit sets of `bitset.c`

The test for a member asks the count of the set first, while `setOperate` works on the words alone, so what a set
answers after an operation depends on what it held before. The observers and a failing `realloc` are left out.
-/

namespace OpenLava.BitSet

open List WordMask

def WORDLENGTH : Nat := 32
def SET_DEFAULT_SIZE : Nat := WORDLENGTH
def SET_WORD_DEFAULT_EXTENT : Nat := 2

/-- `setWidth` is the length of `bitmask`; `direct`: the object points to its index. -/
structure LsBitset where
  bitmask : List (BitVec 32)
  (setSize setNumElements : Nat)
  direct : Bool
  deriving DecidableEq, Repr

def LsBitset.setWidth (set : LsBitset) : Nat := set.bitmask.length

def setCreate (size : Int) (direct : Bool) : LsBitset :=
  let sz := if 0 < size then size.toNat else SET_DEFAULT_SIZE
  let setWidth := (sz + WORDLENGTH - 1) / WORDLENGTH
  ⟨replicate setWidth 0, setWidth * WORDLENGTH, 0, direct⟩

def setTestValue (set : LsBitset) (value : Nat) : Bool :=
  (set.bitmask.getD (value / WORDLENGTH) 0 &&& (1#32 <<< (value % WORDLENGTH))) != 0

/-- An `int` as it is compared with an `unsigned int`. -/
def unsigned (x : Int) : Nat := (x % 2 ^ 32).toNat

/-- `x` is the index of the object; -1 for an index that is none. -/
def setIsMember (set : LsBitset) (x : Int) : Int :=
  if set.setNumElements = 0 then 0
  else if set.direct ∧ x < 0 then -1
  else if set.setSize ≤ unsigned x then 0
  else if setTestValue set x.toNat then 1 else 0

/-- `newSize` is a number of elements or of words, and counts as words. -/
def setEnlarge (set : LsBitset) (newSize : Nat) : LsBitset :=
  let bitmask := set.bitmask ++ replicate (newSize + SET_WORD_DEFAULT_EXTENT) 0
  { set with bitmask, setSize := bitmask.length * WORDLENGTH % 2 ^ 32 }

def setAddElement (set : LsBitset) (x : Int) : LsBitset × Int :=
  if set.direct ∧ x < 0 then (set, -1)
  else if set.setSize ≤ unsigned x then
    let larger := setEnlarge set (unsigned x)
    ({ larger with bitmask := turnOn larger.bitmask x.toNat, setNumElements := larger.setNumElements + 1 }, 0)
  else if setTestValue set x.toNat then (set, -1)
  else ({ set with bitmask := turnOn set.bitmask x.toNat, setNumElements := set.setNumElements + 1 }, 0)

def LS_SET_UNION : Int := 0
def LS_SET_INTERSECT : Int := 1
def LS_SET_DIFFERENCE : Int := 2
def LS_SET_ASSIGN : Int := 5

def widened (dest src : LsBitset) : LsBitset :=
  if dest.setWidth < src.setWidth then setEnlarge dest src.setWidth else dest

/-- The operation goes over the words of `src`; two clear what `dest` has beyond. -/
def setOperate (dest src : LsBitset) (op : Int) : LsBitset :=
  if op ≠ LS_SET_UNION ∧ op ≠ LS_SET_INTERSECT ∧ op ≠ LS_SET_DIFFERENCE ∧ op ≠ LS_SET_ASSIGN then dest
  else
    let wide := widened dest src
    if op = LS_SET_UNION then { wide with bitmask := onto (· ||| ·) id wide.bitmask src.bitmask }
    else if op = LS_SET_INTERSECT then { wide with bitmask := onto (· &&& ·) (fun _ => 0) wide.bitmask src.bitmask }
    else if op = LS_SET_DIFFERENCE then { wide with bitmask := onto (· ^^^ ·) id wide.bitmask src.bitmask }
    else { wide with bitmask := onto (fun _ s => s) (fun _ => 0) wide.bitmask src.bitmask }

/-- `setSize` counts the bits; a set that counts none has none on. -/
structure LsBitset.Valid (set : LsBitset) : Prop where
  sized : set.setSize = 32 * set.setWidth
  small : set.setSize ≤ 2 ^ 31
  counted : set.setNumElements = 0 → ∀ x, has set.bitmask x = false

def LsBitset.Mem (set : LsBitset) (x : Nat) : Prop := setIsMember set x ≠ 0
  deriving Decidable

/-- The operations that `setOperate` knows. -/
inductive SetOp
  | union
  | intersect
  | difference
  | assign
  deriving DecidableEq, Repr

def SetOp.code : SetOp → Int
  | .union => LS_SET_UNION
  | .intersect => LS_SET_INTERSECT
  | .difference => LS_SET_DIFFERENCE
  | .assign => LS_SET_ASSIGN

/-- Whether a number belongs to the result, from whether it belongs to the two sets. -/
def SetOp.Wanted : SetOp → Prop → Prop → Prop
  | .union, d, s => d ∨ s
  | .intersect, d, s => d ∧ s
  | .difference, d, s => d ∧ ¬s
  | .assign, _, s => s

def SetOp.bit : SetOp → Bool → Bool → Bool
  | .union, d, s => d || s
  | .intersect, d, s => d && s
  | .difference, d, s => d ^^ s
  | .assign, _, s => s

/-- Room in `unsigned int` for the bits of `dest` if it has to grow. -/
def Room (dest src : LsBitset) : Prop :=
  dest.setWidth < src.setWidth → 32 * (dest.setWidth + src.setWidth + 2) ≤ 2 ^ 31

variable {set dest src : LsBitset} {x : Nat}

theorem setTestValue_eq (set : LsBitset) (x : Nat) : setTestValue set x = has set.bitmask x := by
  have ho : x % 32 < 32 := Nat.mod_lt x (by decide)
  unfold setTestValue has WORDLENGTH
  generalize set.bitmask.getD (x / 32) 0 = word
  rw [← BitVec.twoPow_eq, BitVec.and_twoPow]
  cases h : word.getLsbD (x % 32)
  · simp
  · have hne : BitVec.twoPow 32 (x % 32) ≠ 0#32 := by
      intro h0
      have hb := congrArg (BitVec.getLsbD · (x % 32)) h0
      simp [ho] at hb
    simpa using hne

theorem unsigned_natCast (hx : x < 2 ^ 31) : unsigned x = x := by
  unfold unsigned
  omega

theorem mem_iff (hs : set.setSize = 32 * set.setWidth) (hx : x < 2 ^ 31) :
    set.Mem x ↔ set.setNumElements ≠ 0 ∧ has set.bitmask x = true := by
  unfold LsBitset.Mem setIsMember
  rw [unsigned_natCast hx, Int.toNat_natCast, setTestValue_eq]
  have hn : ¬(set.direct = true ∧ (x : Int) < 0) := by omega
  rw [if_neg hn]
  split
  case isTrue h => simp [h]
  case isFalse h =>
    split
    case isTrue hout =>
      have ho : has set.bitmask x ≠ true := fun hb => Nat.not_lt.mpr hout (hs ▸ lt_of_has hb)
      simp [ho]
    case isFalse => split <;> simp_all

theorem LsBitset.Valid.mem_iff (h : set.Valid) (hx : x < 2 ^ 31) : set.Mem x ↔ has set.bitmask x = true := by
  rw [BitSet.mem_iff h.sized hx]
  constructor
  · exact And.right
  · intro hb
    refine ⟨fun h0 => ?_, hb⟩
    rw [h.counted h0] at hb
    exact absurd hb (by decide)

theorem setEnlarge_sized (hr : 32 * (set.setWidth + n + 2) ≤ 2 ^ 31) :
    (setEnlarge set n).setSize = 32 * (setEnlarge set n).setWidth ∧ (setEnlarge set n).setSize ≤ 2 ^ 31 := by
  simp only [setEnlarge, LsBitset.setWidth, SET_WORD_DEFAULT_EXTENT, WORDLENGTH, length_append,
    length_replicate] at hr ⊢
  omega

theorem widened_sized (hd : dest.Valid) (hr : Room dest src) :
    (widened dest src).setSize = 32 * (widened dest src).setWidth ∧ (widened dest src).setSize ≤ 2 ^ 31 := by
  unfold widened
  split
  case isTrue hlt => exact setEnlarge_sized (hr hlt)
  case isFalse => exact ⟨hd.sized, hd.small⟩

theorem le_widened : src.bitmask.length ≤ (widened dest src).bitmask.length := by
  unfold widened
  split
  case isTrue => simp [setEnlarge, LsBitset.setWidth]; omega
  case isFalse h => exact Nat.not_lt.mp h

theorem has_widened : has (widened dest src).bitmask x = has dest.bitmask x := by
  unfold widened
  split
  · exact has_append_zeros ..
  · rfl

theorem widened_setNumElements : (widened dest src).setNumElements = dest.setNumElements := by
  unfold widened
  split <;> rfl

/-- Each operation goes over the mask of the widened set, and over nothing else of it. -/
theorem setOperate_eq (dest src : LsBitset) (op : SetOp) : ∃ f tail,
    setOperate dest src op.code = { widened dest src with bitmask := onto f tail (widened dest src).bitmask src.bitmask } ∧
    (∀ a b i, i < 32 → (f a b).getLsbD i = op.bit (a.getLsbD i) (b.getLsbD i)) ∧
    (∀ a i, i < 32 → (tail a).getLsbD i = op.bit (a.getLsbD i) false) := by
  cases op with
  | union => exact ⟨(· ||| ·), id, rfl, by simp [SetOp.bit], by simp [SetOp.bit]⟩
  | intersect => exact ⟨(· &&& ·), fun _ => 0, rfl, by simp [SetOp.bit], by simp [SetOp.bit]⟩
  | difference => exact ⟨(· ^^^ ·), id, rfl, by simp [SetOp.bit], by simp [SetOp.bit]⟩
  | assign => exact ⟨fun _ s => s, fun _ => 0, rfl, by simp [SetOp.bit], by simp [SetOp.bit]⟩

/-- The bits are the ones an operation is to give, the count is the one before. -/
theorem setOperate_spec (hd : dest.Valid) (hr : Room dest src) (op : SetOp) : (setOperate dest src op.code).setSize =
    32 * (setOperate dest src op.code).setWidth ∧ (setOperate dest src op.code).setSize ≤ 2 ^ 31 ∧
    (setOperate dest src op.code).setNumElements = dest.setNumElements ∧ ∀ x,
    has (setOperate dest src op.code).bitmask x = op.bit (has dest.bitmask x) (has src.bitmask x) := by
  obtain ⟨f, tail, heq, hf, ht⟩ := setOperate_eq dest src op
  obtain ⟨hs, hsma⟩ := widened_sized hd hr
  rw [heq]
  refine ⟨?_, hsma, widened_setNumElements, ?_⟩
  · simpa only [LsBitset.setWidth, onto_length le_widened] using hs
  · intro x
    have ho : op.bit false false = false := by cases op <;> rfl
    rw [has_onto hf ht ho le_widened (by decide), has_widened]

theorem setOperate_mem (hd : dest.Valid) (hs : src.Valid) (hr : Room dest src) (op : SetOp) (hx : x < 2 ^ 31) :
    (setOperate dest src op.code).Mem x ↔
      dest.setNumElements ≠ 0 ∧ op.bit (decide (dest.Mem x)) (decide (src.Mem x)) = true := by
  obtain ⟨hsiz, -, hn, hb⟩ := setOperate_spec hd hr op
  rw [mem_iff hsiz hx, hn, hb]
  simp only [hd.mem_iff hx, hs.mem_iff hx, Bool.decide_eq_true]

/-- When an operation does what it is for: `setNumElements` is stale, the difference an exclusive
or. -/
theorem setOperate_wanted_iff (hd : dest.Valid) (hs : src.Valid) (hroom : Room dest src) (op : SetOp) :
    (∀ x, x < 2 ^ 31 → ((setOperate dest src op.code).Mem x ↔ op.Wanted (dest.Mem x) (src.Mem x))) ↔
      if dest.setNumElements = 0 then op = .intersect ∨ op = .difference ∨ ∀ x, x < 2 ^ 31 → ¬src.Mem x
      else op = .difference → ∀ x, x < 2 ^ 31 → src.Mem x → dest.Mem x := by
  have hmem : ∀ x, x < 2 ^ 31 → ((setOperate dest src op.code).Mem x ↔
      dest.setNumElements ≠ 0 ∧ op.bit (decide (dest.Mem x)) (decide (src.Mem x)) = true) :=
    fun x hx => setOperate_mem hd hs hroom op hx
  split
  case isTrue h0 =>
    have hn : ∀ x, x < 2 ^ 31 → ¬dest.Mem x := fun x hx hm => ((mem_iff hd.sized hx).mp hm).1 h0
    cases op <;> simp +contextual [SetOp.Wanted, hmem, hn, h0]
  case isFalse h0 =>
    cases op with
    | union | intersect | assign => simp +contextual [SetOp.Wanted, SetOp.bit, hmem, h0]
    | difference =>
      simp only [forall_true_left]
      refine forall₂_congr fun x hx => ?_
      rw [hmem x hx]
      by_cases hdx : dest.Mem x <;> by_cases hsx : src.Mem x <;> simp [SetOp.Wanted, SetOp.bit, hdx, hsx, h0]

theorem setCreate_valid {size : Int} {direct : Bool} (h : size ≤ 2 ^ 31) : (setCreate size direct).Valid where
  sized := by simp [setCreate, LsBitset.setWidth, WORDLENGTH, Nat.mul_comm]
  small := by
    simp only [setCreate, WORDLENGTH, SET_DEFAULT_SIZE]
    split <;> omega
  counted := by simp [setCreate]

theorem turnOn_valid (h : set.Valid) (x : Nat) :
    LsBitset.Valid { set with bitmask := turnOn set.bitmask x, setNumElements := set.setNumElements + 1 } where
  sized := by simpa [LsBitset.setWidth, turnOn] using h.sized
  small := h.small
  counted := by simp

theorem setAddElement_spec (h : set.Valid) (hx : x < 2 ^ 31)
    (hr : set.setSize ≤ x → 32 * (set.setWidth + x + 2) ≤ 2 ^ 31) :
    (setAddElement set x).1.Valid ∧ ∀ y, y < 2 ^ 31 → ((setAddElement set x).1.Mem y ↔ set.Mem y ∨ y = x) := by
  have hn : ¬(set.direct = true ∧ (x : Int) < 0) := by omega
  unfold setAddElement
  rw [unsigned_natCast hx, Int.toNat_natCast, setTestValue_eq, if_neg hn]
  split
  case isTrue hge =>
    obtain ⟨hs, hsma⟩ := setEnlarge_sized (hr hge)
    have hb : ∀ y, has (setEnlarge set x).bitmask y = has set.bitmask y := fun y => has_append_zeros ..
    have hl : (setEnlarge set x).Valid := ⟨hs, hsma, fun h0 y => (hb y).trans (h.counted h0 y)⟩
    have hin : x < (setEnlarge set x).setSize := by
      rw [hs]
      simp only [setEnlarge, LsBitset.setWidth, SET_WORD_DEFAULT_EXTENT, length_append, length_replicate]
      omega
    refine ⟨turnOn_valid hl x, fun y hy => ?_⟩
    rw [(turnOn_valid hl x).mem_iff hy, has_turnOn (by decide) (hs ▸ hin), hb, h.mem_iff hy]
    simp
  case isFalse hlt =>
    split
    case isTrue hon =>
      refine ⟨h, fun y hy => ?_⟩
      rw [h.mem_iff hy]
      constructor
      · exact Or.inl
      · rintro (hy' | rfl)
        · exact hy'
        · exact hon
    case isFalse =>
      have hin : x < set.setSize := Nat.lt_of_not_le hlt
      refine ⟨turnOn_valid h x, fun y hy => ?_⟩
      rw [(turnOn_valid h x).mem_iff hy, has_turnOn (by decide) (h.sized ▸ hin), h.mem_iff hy]
      simp

/-- The number `n` alone, as `setAddElement` puts it into a new set. -/
def single (n : Nat) : LsBitset := (setAddElement (setCreate 32 false) n).1

theorem single_valid (hn : n < 32) : (single n).Valid :=
  (setAddElement_spec (setCreate_valid (by decide)) (by omega) (fun h => absurd hn (Nat.not_lt.mpr h))).1

/-- A set that has an element takes a wider one in. -/
theorem setOperate_wanted_union : (setOperate (single 5) (single 3) LS_SET_UNION).Mem 3 ↔
    (single 5).Mem 3 ∨ (single 3).Mem 3 :=
  (setOperate_wanted_iff (single_valid (by decide)) (single_valid (by decide)) (by unfold Room; decide) .union).mpr
    (by decide) 3 (by decide)

/-- An empty set that 3 is put into denies it, and a set without 3 has it once it is taken away. -/
theorem setOperate_not_wanted : (single 3).Mem 3 ∧ ¬(setOperate (setCreate 32 false) (single 3) LS_SET_UNION).Mem 3 ∧
    ¬(setOperate (setCreate 32 false) (single 3) LS_SET_ASSIGN).Mem 3 ∧
    ¬(single 5).Mem 3 ∧ (setOperate (single 5) (single 3) LS_SET_DIFFERENCE).Mem 3 := by
  decide

end OpenLava.BitSet

import Mathlib.Data.Finset.Card
import OpenLava.Lib.BitSet
import OpenLava.Run

/-!
# Copies of bit sets

`setDup` copies the mask of the new set onto itself.
-/

namespace OpenLava.BitSet

open Function WordMask Run

/-- The test for a negative index looks at a pointer without a value, and never holds. -/
def setRemoveElement (set : LsBitset) (x : Int) : LsBitset × Int :=
  if set.setNumElements = 0 then (set, -1)
  else if set.setSize ≤ unsigned x then (set, 0)
  else ({ set with bitmask := turnOff set.bitmask x.toNat, setNumElements := set.setNumElements - 1 }, 0)

inductive ElemOp
  | add (x : Nat)
  | remove (x : Nat)

def ElemOp.apply : ElemOp → LsBitset → LsBitset
  | .add x, set => (setAddElement set x).1
  | .remove x, set => (setRemoveElement set x).1

structure Memory where
  masks : Nat → List (BitVec 32)
  next : Nat

/-- `LS_BITSET_T`, with the address of its mask. -/
structure SetRec where
  (bitmask setSize setNumElements : Nat)
  direct : Bool

def SetRec.load (r : SetRec) (m : Memory) : LsBitset := ⟨m.masks r.bitmask, r.setSize, r.setNumElements, r.direct⟩

/-- An operation on the set at a record. A mask that grows is moved by `realloc`. -/
def SetRec.apply (op : ElemOp) (p : SetRec × Memory) : SetRec × Memory :=
  let set := op.apply (p.1.load p.2)
  let bitmask := if (p.2.masks p.1.bitmask).length < set.setWidth then p.2.next else p.1.bitmask
  (⟨bitmask, set.setSize, set.setNumElements, set.direct⟩,
    ⟨update p.2.masks bitmask set.bitmask, p.2.next + 1⟩)

/-- `memcpy` has the new mask as its source and its target. -/
def setDup (r : SetRec) (m : Memory) : SetRec × Memory :=
  let width := (m.masks r.bitmask).length
  let masks := update m.masks m.next (List.replicate width 0)
  ({ r with bitmask := m.next }, ⟨update masks m.next ((masks m.next).take width), m.next + 1⟩)

theorem SetRec.load_run {r other : SetRec} (ho : other.bitmask < m.next)
    (hne : r.bitmask ≠ other.bitmask) (ops : List ElemOp) : other.load (run SetRec.apply ops (r, m)).2 = other.load m := by
  induction ops generalizing r m with
  | nil => rfl
  | cons op ops ih =>
    have hpla : (SetRec.apply op (r, m)).1.bitmask ≠ other.bitmask := by
      dsimp only [SetRec.apply]
      split_ifs
      · exact ho.ne'
      · exact hne
    rw [run, ih (Nat.lt_succ_of_lt ho) hpla]
    have hmask : (SetRec.apply op (r, m)).2.masks other.bitmask = m.masks other.bitmask :=
      update_of_ne hpla.symm ..
    rw [SetRec.load, hmask, SetRec.load]

/-- The copy's own mask stays as `calloc` gave it, and the two do not touch each other. -/
theorem setDup_copy (r : SetRec) (m : Memory) (hr : r.bitmask < m.next) (hvalid : (r.load m).Valid) :
    ((∀ x, x < 2 ^ 31 → (((setDup r m).1.load (setDup r m).2).Mem x ↔ (r.load m).Mem x)) ↔
      ∀ x, x < 2 ^ 31 → ¬(r.load m).Mem x) ∧
    r.load (setDup r m).2 = r.load m ∧
    (∀ ops, r.load (run SetRec.apply ops (setDup r m)).2 = r.load (setDup r m).2) ∧
    ∀ ops, (setDup r m).1.load (run SetRec.apply ops (r, (setDup r m).2)).2 = (setDup r m).1.load (setDup r m).2 := by
  have hmask : (setDup r m).2.masks (setDup r m).1.bitmask = List.replicate (m.masks r.bitmask).length 0 := by
    simp [setDup]
  have hn : ∀ x, x < 2 ^ 31 → ¬((setDup r m).1.load (setDup r m).2).Mem x := fun x hx hmem => by
    have hs : ((setDup r m).1.load (setDup r m).2).setSize = 32 * ((setDup r m).1.load (setDup r m).2).setWidth := by
      rw [LsBitset.setWidth, SetRec.load, hmask, List.length_replicate]
      exact hvalid.sized
    have hon := ((mem_iff hs hx).mp hmem).2
    rw [SetRec.load, hmask] at hon
    simp at hon
  refine ⟨forall₂_congr fun x hx => by simp [hn x hx], ?_, fun ops => ?_, fun ops => ?_⟩
  · simp [SetRec.load, setDup, hr.ne]
  · exact SetRec.load_run (Nat.lt_succ_of_lt hr) hr.ne' ops
  · exact SetRec.load_run (Nat.lt_succ_self m.next) hr.ne ops

def oneSet : Memory := ⟨fun _ => (single 3).bitmask, 1⟩

theorem setDup_copy_single : (SetRec.load ⟨0, 32, 1, false⟩
    (run SetRec.apply [.add 5, .remove 3] (setDup ⟨0, 32, 1, false⟩ oneSet)).2).Mem 3 := by
  have hv : (SetRec.load ⟨0, 32, 1, false⟩ oneSet).Valid := single_valid (n := 3) (by decide)
  rw [(setDup_copy ⟨0, 32, 1, false⟩ oneSet (by decide) hv).2.2.1]
  decide

/-- The copy of the set of 3 does not have 3. -/
theorem setDup_not_same : (SetRec.load ⟨0, 32, 1, false⟩ oneSet).Mem 3 ∧
    ¬((setDup ⟨0, 32, 1, false⟩ oneSet).1.load (setDup ⟨0, 32, 1, false⟩ oneSet).2).Mem 3 := by
  decide

end OpenLava.BitSet

import Mathlib.Data.Fintype.EquivFin
import Mathlib.Data.List.Basic
import Mathlib.Tactic.Common

/-!
# Host and user groups

The groups of `mbd.grp.c` hold names and further groups, and an empty group stands for all names. `expandGrp` counts the
names of all groups in one walk and writes them down in a second one; both keep their place in a static variable, here
passed along.
-/

namespace OpenLava.Groups

open List

/-- `struct gData`. A group is given by the groups in it. -/
inductive GData where
  | mk (group : String) (memberTab : List String) (gPtr : List GData)

def GData.group : GData → String
  | .mk group _ _ => group

def GData.memberTab : GData → List String
  | .mk _ memberTab _ => memberTab

def GData.gPtr : GData → List GData
  | .mk _ _ gPtr => gPtr

def GData.isAll (gp : GData) : Bool := gp.gPtr.isEmpty && gp.memberTab.isEmpty

def gDirectMember (word : String) (gp : GData) : Bool := gp.isAll || gp.memberTab.contains word

mutual
def gMember (word : String) : GData → Bool
  | .mk group memberTab gPtr => gDirectMember word (.mk group memberTab gPtr) || gMemberLoop word gPtr

def gMemberLoop (word : String) : List GData → Bool
  | [] => false
  | g :: gs => gMember word g || gMemberLoop word gs
end

mutual
/-- With its static variable `num` -/
def countEntries : GData → Nat → Nat
  | .mk _ memberTab gPtr, num => countLoop gPtr (num + memberTab.length)

def countLoop : List GData → Nat → Nat
  | [], num => num
  | g :: gs, num => countLoop gs (countEntries g num)
end

/-- The table being filled and the static variable `mcnt`. -/
def putMember (t : List (Option String) × Nat) (name : String) : List (Option String) × Nat :=
  (t.1.set t.2 (some name), t.2 + 1)

mutual
def fillMembers : GData → List (Option String) × Nat → List (Option String) × Nat
  | .mk _ memberTab gPtr, t => fillLoop gPtr (memberTab.foldl putMember t)

def fillLoop : List GData → List (Option String) × Nat → List (Option String) × Nat
  | [], t => t
  | g :: gs, t => fillLoop gs (fillMembers g t)
end

/-- The table comes from `my_calloc`, and its length is `*num`. -/
def expandGrp (gp : GData) (gName : String) : List (Option String) :=
  let num := countEntries gp 0
  if num = 0 then [some gName] else (fillMembers gp (replicate num none, 0)).1

mutual
/-- `sumMembers` with `r` set and with its static `num`. The first result is what is returned. -/
def sumMembers : GData → Nat → Nat × Nat
  | .mk _ memberTab gPtr, num =>
    if gPtr.isEmpty ∧ memberTab.isEmpty then (0, num) else sumLoop gPtr (num + memberTab.length)

def sumLoop : List GData → Nat → Nat × Nat
  | [], num => (num, num)
  | g :: gs, num =>
    let r := sumMembers g num
    if r.1 = 0 then (0, r.2) else sumLoop gs r.2
end

theorem GData.induct {P : GData → Prop} (step : ∀ group memberTab gPtr, (∀ g ∈ gPtr, P g) → P (.mk group memberTab gPtr))
    (gp : GData) : P gp := by
  refine @GData.rec P (fun gs => ∀ g ∈ gs, P g) step ?_ ?_ gp
  · simp
  · intro g gs hg hgs
    exact forall_mem_cons.mpr ⟨hg, hgs⟩

mutual
def GData.entries : GData → List String
  | .mk _ memberTab gPtr => memberTab ++ entriesLoop gPtr

def entriesLoop : List GData → List String
  | [] => []
  | g :: gs => g.entries ++ entriesLoop gs
end

mutual
def GData.someAll : GData → Bool
  | .mk group memberTab gPtr => (GData.mk group memberTab gPtr).isAll || someAllLoop gPtr

def someAllLoop : List GData → Bool
  | [] => false
  | g :: gs => g.someAll || someAllLoop gs
end

theorem gMemberLoop_eq_true : gMemberLoop word gs = true ↔ ∃ g ∈ gs, gMember word g = true := by
  induction gs with
  | nil => simp [gMemberLoop]
  | cons g gs ih => simp [gMemberLoop, ih]

theorem mem_entriesLoop : word ∈ entriesLoop gs ↔ ∃ g ∈ gs, word ∈ g.entries := by
  induction gs with
  | nil => simp [entriesLoop]
  | cons g gs ih => simp [entriesLoop, ih]

theorem someAllLoop_eq_true : someAllLoop gs = true ↔ ∃ g ∈ gs, g.someAll = true := by
  induction gs with
  | nil => simp [someAllLoop]
  | cons g gs ih => simp [someAllLoop, ih]

theorem gMember_iff (word : String) (gp : GData) : gMember word gp = true ↔ gp.someAll = true ∨ word ∈ gp.entries := by
  induction gp using GData.induct with
  | step group memberTab gPtr ih =>
    have hl : gMemberLoop word gPtr = true ↔ someAllLoop gPtr = true ∨ word ∈ entriesLoop gPtr := by
      rw [gMemberLoop_eq_true, someAllLoop_eq_true, mem_entriesLoop, ← exists_or]
      refine exists_congr fun g => ?_
      rw [← and_or_left]
      exact and_congr_right fun hg => ih g hg
    simp only [gMember, gDirectMember, GData.someAll, GData.entries, GData.memberTab, Bool.or_eq_true, hl,
      contains_iff_mem, mem_append]
    tauto

theorem countEntries_eq (gp : GData) (num : Nat) : countEntries gp num = num + gp.entries.length := by
  induction gp using GData.induct generalizing num with
  | step group memberTab gPtr ih =>
    have hl : ∀ n, countLoop gPtr n = n + (entriesLoop gPtr).length := by
      induction gPtr with
      | nil => simp [countLoop, entriesLoop]
      | cons g gs ihs =>
        rw [forall_mem_cons] at ih
        intro n
        rw [countLoop, ih.1, ihs ih.2, entriesLoop, length_append, Nat.add_assoc]
    rw [countEntries, hl, GData.entries, length_append, Nat.add_assoc]

theorem fillMembers_eq (gp : GData) (t : List (Option String) × Nat) : fillMembers gp t = gp.entries.foldl putMember t := by
  induction gp using GData.induct generalizing t with
  | step group memberTab gPtr ih =>
    have hl : ∀ t, fillLoop gPtr t = (entriesLoop gPtr).foldl putMember t := by
      induction gPtr with
      | nil => simp [fillLoop, entriesLoop]
      | cons g gs ihs =>
        rw [forall_mem_cons] at ih
        intro t
        rw [fillLoop, ih.1, ihs ih.2, entriesLoop, foldl_append]
    rw [fillMembers, hl, GData.entries, foldl_append]

theorem foldl_putMember (names : List String) (done : List (Option String)) :
    (names.foldl putMember (done ++ replicate names.length none, done.length)).1 = done ++ names.map some := by
  induction names generalizing done with
  | nil => simp
  | cons name names ih =>
    have hput : putMember (done ++ replicate (name :: names).length none, done.length) name =
        ((done ++ [some name]) ++ replicate names.length none, (done ++ [some name]).length) := by
      simp [putMember, replicate_succ]
    rw [foldl_cons, hput, ih]
    simp

theorem expandGrp_eq (gp : GData) (gName : String) :
    expandGrp gp gName = if gp.entries = [] then [some gName] else gp.entries.map some := by
  simp only [expandGrp, countEntries_eq, Nat.zero_add, fillMembers_eq]
  by_cases h : gp.entries = []
  · simp [h]
  · rw [if_neg h, if_neg (by simpa using h)]
    simpa using foldl_putMember gp.entries []

theorem expandGrp_eq_own (gp : GData) (gName : String) :
    expandGrp gp gName = [some gName] ↔ gp.entries = [] ∨ gp.entries = [gName] := by
  rw [expandGrp_eq]
  split
  case isTrue h => simp [h]
  case isFalse h => simp [h, map_eq_singleton_iff]

theorem exists_notMem (names : List String) : ∃ word, word ∉ names := by
  obtain ⟨word, h⟩ := Infinite.exists_notMem_finset names.toFinset
  exact ⟨word, by simpa using h⟩

/-- `expandGrp` and `gMember` agree iff the list stands for all for exactly the groups with an
empty one. -/
theorem gMember_iff_expandGrp (gp : GData) (gName : String) :
    (∀ word, gMember word gp = true ↔ some word ∈ expandGrp gp gName ∨ expandGrp gp gName = [some gName]) ↔
      (gp.someAll = true ↔ gp.entries = [] ∨ gp.entries = [gName]) := by
  have hmem : gp.entries ≠ [] → ∀ word, some word ∈ expandGrp gp gName ↔ word ∈ gp.entries := by
    intro hne word
    rw [expandGrp_eq, if_neg hne]
    simp
  simp only [expandGrp_eq_own, gMember_iff]
  constructor
  · intro h
    obtain ⟨word, hw⟩ := exists_notMem (gName :: gp.entries)
    rw [mem_cons, not_or] at hw
    have hlist : some word ∉ expandGrp gp gName := by
      rw [expandGrp_eq]
      split <;> simp [hw]
    simpa [hw, hlist] using h word
  · intro h word
    by_cases ho : gp.entries = [] ∨ gp.entries = [gName]
    · simp [ho, h]
    · have hne : gp.entries ≠ [] := fun h0 => ho (.inl h0)
      simp [ho, h, hmem hne]

def withNestedAll (names : List String) : GData := .mk "g" names [.mk "e" [] []]

theorem gMember_iff_expandGrp_noNames : ∀ word, gMember word (withNestedAll []) = true ↔
    some word ∈ expandGrp (withNestedAll []) "g" ∨ expandGrp (withNestedAll []) "g" = [some "g"] :=
  (gMember_iff_expandGrp (withNestedAll []) "g").mpr (by decide)

/-- The group expands to its one name, though every name is a member. -/
theorem gMember_not_expandGrp : gMember "b" (withNestedAll ["a"]) = true ∧
    expandGrp (withNestedAll ["a"]) "g" = [some "a"] ∧ (sumMembers (withNestedAll ["a"]) 0).1 = 0 := by
  decide

end OpenLava.Groups

import Mathlib.Logic.Relation
import Mathlib.Order.WellFounded
import Mathlib.Tactic.Common

/-!
# The groups of the configuration files

`lsb.conf.c` keeps the user groups and the host groups in tables, each group with the words of its line. `isInGrp` and
`expandGrp` go down from a group to the groups in it and have nothing that stops them on a cycle; the number of their
nested calls is the fuel here.
-/

namespace OpenLava.ConfGroups

open List

abbrev Word := List Char

def ALL : Word := "all".toList

inductive GroupType where
  | USER_GRP | HOST_GRP
  deriving DecidableEq, Repr

/-- `struct groupInfoEnt`. The name is NULL once the group is freed. -/
structure GroupInfoEnt where
  group : Option Word := none
  memberList : List Word := []
  deriving DecidableEq, Repr

/-- `usergroups` or `hostgroups`, up to the number of groups. -/
abbrev GroupTab := List GroupInfoEnt

def getGrpData (groups : GroupTab) (name : Word) : Option GroupInfoEnt := groups.find? (·.group = some name)

/-- `same` compares a member with the word: `strcmp` for users and `equalHost_` for hosts. -/
def isInGrp (same : Word → Word → Bool) (groups : GroupTab) (word : Word) : Nat → Option GroupInfoEnt → Bool → Option Bool
  | _, none, _ => some false
  | 0, some _, _ => none
  | fuel + 1, some gp, checkAll =>
    if gp.memberList = [] ∨ word.head? = some '~' then some false
    else if gp.memberList = [ALL] ∧ checkAll then some true
    else gp.memberList.anyM fun str =>
      if same str word then some true else isInGrp same groups word fuel (getGrpData groups str) false

/-- The loop of `expandGrp`. The words stay behind in the static buffer of `getNextWord_`. -/
def expandLoop (groups : GroupTab) (expand : Word → Word → Option (List Word × Word)) :
    List Word → List Word → Word → Option (List Word × Word)
  | [], list, buffer => some (list, buffer)
  | str :: tmp, list, _ =>
    if (getGrpData groups str).isNone then expandLoop groups expand tmp (list ++ [str]) str
    else
      (expand str str).bind fun sub =>
        if sub.1.head? = some ALL then some ([ALL], sub.2)
        else expandLoop groups expand tmp (list ++ sub.1) sub.2

/-- The list, and what the static buffer of `getNextWord_` has then. -/
def expandGrp (groups : GroupTab) : Nat → Word → Word → Option (List Word × Word)
  | 0, _, _ => none
  | fuel + 1, word, buffer =>
    match getGrpData groups word with
    | none => some ([word], buffer)
    | some gp =>
      if gp.memberList = [ALL] then some ([ALL], buffer)
      else expandLoop groups (expandGrp groups fuel) gp.memberList [] buffer

/-- What the name services and `lsb.hosts` know. -/
structure HostNames where
  Gethostbyname : Word → Option Word
  (hosts clusterHosts : List Word)
  equalHost : Word → Word → Bool

def isHostName (names : HostNames) (grpName : Word) : Bool :=
  (names.Gethostbyname grpName).isSome || names.hosts.any (names.equalHost grpName)

def Within (groups : GroupTab) (v w : Word) : Prop :=
  ∃ gp ∈ getGrpData groups v, w ∈ gp.memberList ∧ (getGrpData groups w).isSome

/-- Groups come after the groups in them in some order with at most `n` steps. -/
def Graded (groups : GroupTab) (n : Nat) : Prop :=
  ∃ grade : Word → Nat, (∀ v, grade v ≤ n) ∧ ∀ v w, Within groups v w → grade w < grade v

variable {same : Word → Word → Bool} {groups : GroupTab} {n fuel : Nat} {v w : Word}

theorem Graded.acyclic (h : Graded groups n) (v : Word) : ¬Relation.TransGen (Within groups) v v := by
  obtain ⟨grade, -, hlt⟩ := h
  have hd : ∀ w, Relation.TransGen (Within groups) v w → grade w < grade v := fun w hw => by
    induction hw with
    | single h => exact hlt _ _ h
    | tail _ h ih => exact (hlt _ _ h).trans ih
  exact fun h => (hd v h).ne rfl

/-- It is enough that no group has itself or a later one as a member. -/
theorem graded_of_order (hself : ∀ a ∈ groups, ∀ w ∈ a.memberList, a.group ≠ some w)
    (ho : groups.Pairwise fun a b => ∀ w ∈ a.memberList, b.group ≠ some w) : Graded groups groups.length := by
  refine ⟨fun v => groups.findIdx (·.group = some v), fun v => findIdx_le_length, fun v w ⟨gp, hgp, hw, hs⟩ => ?_⟩
  obtain ⟨sub, hs⟩ := Option.isSome_iff_exists.mp hs
  obtain ⟨hv, i, hi, rfl, hb⟩ := List.find?_eq_some_iff_getElem.mp (Option.mem_def.mp hgp)
  obtain ⟨hname, j, hj, rfl, hb'⟩ := List.find?_eq_some_iff_getElem.mp hs
  have hidx : groups.findIdx (·.group = some v) = i := (findIdx_eq hi).mpr ⟨hv, fun k hk => by simpa using hb k hk⟩
  have hidx' : groups.findIdx (·.group = some w) = j :=
    (findIdx_eq hj).mpr ⟨hname, fun k hk => by simpa using hb' k hk⟩
  dsimp only
  rw [hidx, hidx']
  rcases Nat.lt_trichotomy j i with hlt | rfl | hlt
  · exact hlt
  · exact absurd (by simpa using hname) (hself _ (getElem_mem hj) w hw)
  · exact absurd (by simpa using hname) (pairwise_iff_getElem.mp ho i j hi hj hlt w hw)

theorem anyM_isSome {f : Word → Option Bool} {l : List Word} (h : ∀ x ∈ l, (f x).isSome) : (l.anyM f).isSome := by
  induction l with
  | nil => rfl
  | cons x l ih =>
    obtain ⟨b, hb⟩ := Option.isSome_iff_exists.mp (h x (by simp))
    rw [anyM_cons, hb]
    cases b with
    | true => rfl
    | false => exact ih fun y hy => h y (by simp [hy])

theorem isInGrp_isSome_of_members (word : Word) {gp : GroupInfoEnt} (checkAll : Bool)
    (h : ∀ str ∈ gp.memberList, (isInGrp same groups word fuel (getGrpData groups str) false).isSome) :
    (isInGrp same groups word (fuel + 1) (some gp) checkAll).isSome := by
  rw [isInGrp]
  split
  · rfl
  · split
    · rfl
    · refine anyM_isSome fun str hs => ?_
      split
      · rfl
      · exact h str hs

/-- `isInGrp` ends on every group, and on one that only has its members from the table. -/
theorem isInGrp_isSome (h : Graded groups n) (word : Word) (gp : Option GroupInfoEnt) (checkAll : Bool)
    (hf : n + 1 < fuel) : (isInGrp same groups word fuel gp checkAll).isSome := by
  obtain ⟨grade, hle, hlt⟩ := h
  have hd : ∀ fuel v, grade v < fuel → (isInGrp same groups word fuel (getGrpData groups v) false).isSome := by
    intro fuel
    induction fuel with
    | zero => exact fun v hv => absurd hv (Nat.not_lt_zero _)
    | succ fuel ih =>
      intro v hv
      cases hgp : getGrpData groups v with
      | none => rfl
      | some gp =>
        refine isInGrp_isSome_of_members word false fun str hstr => ?_
        cases hs : getGrpData groups str with
        | none => simp [isInGrp]
        | some q =>
          have hl := hlt v str ⟨gp, hgp, hstr, by simp [hs]⟩
          exact hs ▸ ih str (by omega)
  obtain ⟨fuel, rfl⟩ : ∃ k, fuel = k + 1 := ⟨fuel - 1, by omega⟩
  cases gp with
  | none => rfl
  | some gp => exact isInGrp_isSome_of_members word checkAll fun str _ => hd fuel str (by have := hle str; omega)

theorem expandLoop_isSome {expand : Word → Word → Option (List Word × Word)} {tmp : List Word}
    (h : ∀ str ∈ tmp, (getGrpData groups str).isSome → ∀ buffer, (expand str buffer).isSome) (list : List Word)
    (buffer : Word) : (expandLoop groups expand tmp list buffer).isSome := by
  induction tmp generalizing list buffer with
  | nil => rfl
  | cons str tmp ih =>
    have hr := ih fun x hx => h x (by simp [hx])
    rw [expandLoop]
    split
    · exact hr _ _
    · rename_i hg
      have hs : (getGrpData groups str).isSome := by simpa [Option.ne_none_iff_isSome] using hg
      obtain ⟨sub, hsub⟩ := Option.isSome_iff_exists.mp (h str (by simp) hs str)
      rw [hsub, Option.bind_some]
      split
      · rfl
      · exact hr _ _

theorem expandGrp_isSome (h : Graded groups n) (word buffer : Word) (hf : n < fuel) :
    (expandGrp groups fuel word buffer).isSome := by
  obtain ⟨grade, hle, hlt⟩ := h
  have hd : ∀ fuel v, grade v < fuel → ∀ buffer, (expandGrp groups fuel v buffer).isSome := by
    intro fuel
    induction fuel with
    | zero => exact fun v hv => absurd hv (Nat.not_lt_zero _)
    | succ fuel ih =>
      intro v hv buffer
      rw [expandGrp]
      cases hgp : getGrpData groups v with
      | none => rfl
      | some gp =>
        dsimp only
        split
        · rfl
        · refine expandLoop_isSome (fun str hs hsub => ?_) _ _
          have hl := hlt v str ⟨gp, hgp, hs, hsub⟩
          exact ih str (by omega)
  exact hd fuel word ((hle word).trans_lt hf) buffer

theorem expandGrp_eq_none (hgp : getGrpData groups v = some gp)
    (hf : gp.memberList = w :: tmp) (ha : gp.memberList ≠ [ALL]) (hw : (getGrpData groups w).isSome)
    (hs : ∀ buffer, expandGrp groups fuel w buffer = none) (buffer : Word) :
    expandGrp groups (fuel + 1) v buffer = none := by
  have hg : ¬(getGrpData groups w).isNone = true := by simp [Option.isSome_iff_ne_none.mp hw]
  rw [hf] at ha
  simp only [expandGrp, hgp, hf, if_neg ha, expandLoop, if_neg hg, hs, Option.bind_none]

end OpenLava.ConfGroups

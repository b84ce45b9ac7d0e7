import Mathlib.Data.List.Nodup
import Mathlib.Data.Set.Function
import OpenLava.Lib.NegHosts

/-!
# Group sections

`do_Groups` makes a group of each line of a section. The group comes into the table first, and each word of the line
then becomes a member unless it is refused. With `CONF_EXPAND` a Unix group that is named comes into the table itself,
before the group of the line. `malloc` does not fail here.
-/

namespace OpenLava.DoGroups

open Function List ConfGroups NegHosts

def MAX_GROUPS : Nat := 150

/-- The flags in `options`. -/
structure Options where
  (check expand returnHostspec noExpand : Bool := false)

/-- `options != CONF_NO_CHECK` -/
def Options.checks (options : Options) : Bool :=
  options.check || options.expand || options.returnHostspec || options.noExpand

/-- What the system knows of users, Unix groups and hosts. -/
structure Names extends HostNames where
  getpwlsfuser : Word → Bool
  mygetgrnam : Word → Option (List Word)
  isServerHost : Word → Bool
  runEGroup : GroupType → Word → Option (List Word)

/-- The allocated groups, those of the table, and the names taken for users. -/
structure State where
  ents : Nat → GroupInfoEnt := fun _ => {}
  next : Nat := 0
  groups : List Nat := []
  unknownUsers : List Word := []

def State.table (s : State) : GroupTab := s.groups.map s.ents

/-- `getUGrpData` and `getHGrpData`, as pointers -/
def State.find (s : State) (name : Word) : Option Nat := s.groups.find? fun r => (s.ents r).group = some name

/-- The new group is the last one, or stands before the last one. -/
def addGroup (gname : Word) (last : Bool) (s : State) : State :=
  { s with
    ents := update s.ents s.next { group := some gname }
    next := s.next + 1
    groups := if last then s.groups ++ [s.next] else s.groups.dropLast ++ s.next :: s.groups.getLast?.toList }

def State.append (s : State) (gp : Nat) (word : Word) : State :=
  let memberList := (s.ents gp).memberList ++ [word]
  { s with ents := update s.ents gp { s.ents gp with memberList } }

section

variable (N : Names) (type : GroupType)

/-- How `isInGrp` compares names. -/
def same (str word : Word) : Bool :=
  match type with
  | .USER_GRP => str = word
  | .HOST_GRP => N.equalHost str word

def unixGrp (myWord : Word) : Option (List Word) :=
  N.mygetgrnam (if 1 < myWord.length ∧ myWord.getLast? = some '/' then myWord.dropLast else myWord)

/-- The end of `addMember`. -/
def putMember (fuel : Nat) (gp : Nat) (word : Word) (checkAll : Bool) (s : State) : Option (Bool × State) :=
  (isInGrp (same N type) s.table word fuel (some (s.ents gp)) checkAll).map fun found =>
    if found then (false, s) else (true, s.append gp word)

/-- The new group stands before the last one, which leaves the table without members. -/
def addUnixGrp (addMember : Nat → Word → State → Option (Bool × State)) (gr_mem : List Word) (gname : Word) (s : State) :
    Option (Bool × State) :=
  if MAX_GROUPS ≤ s.groups.length then some (false, s)
  else
    let gp := s.next
    (gr_mem.foldlM (fun s mem => if N.getpwlsfuser mem then (addMember gp mem s).map Prod.snd else some s)
      (addGroup gname false s)).map fun s =>
      if (s.ents gp).memberList = [] then
        (false, { s with ents := update s.ents gp {}, groups := s.groups.dropLast })
      else (true, s)

def addMember : Nat → Options → Bool → Nat → Word → State → Option (Bool × State)
  | 0, _, _, _, _, _ => none
  | fuel + 1, options, checkAll, gp, word, s =>
    let cp := if word.head? = some '~' then word.tail else word
    let myWord := if options.noExpand then cp else word
    let put := putMember N type fuel gp word checkAll
    if myWord = ALL ∨ options.checks = false then put s
    else
      match s.find myWord with
      | some sub => if sub = gp then some (false, s) else put s
      | none =>
        match type with
        | .USER_GRP =>
          if N.getpwlsfuser myWord ∨ s.unknownUsers.contains myWord then put s
          else
            match unixGrp N myWord with
            | some gr_mem =>
              if options.expand then
                (addUnixGrp N (addMember fuel { expand := true } true) gr_mem myWord s).bind fun r =>
                  if r.1 then put r.2 else some (false, r.2)
              else put s
            | none => put { s with unknownUsers := myWord :: s.unknownUsers }
        | .HOST_GRP =>
          match N.Gethostbyname myWord with
          | none => some (false, s)
          | some name =>
            if N.hosts.any (N.equalHost name) = false ∧ N.hosts ≠ [] then some (false, s)
            else if N.isServerHost name = false then some (false, s)
            else put s

structure Line where
  GROUP_NAME : Word
  GROUP_MEMBER : List Word

/-- The members of a line, from `egroup` for a single `!`. -/
def Line.words (line : Line) : List Word :=
  if line.GROUP_MEMBER = ["!".toList] then (N.runEGroup type line.GROUP_NAME).getD [] else line.GROUP_MEMBER

/-- The words without the excluded hosts; a number is what they are refused with. -/
def resolved (fuel : Nat) (options : Options) (words : List Word) (s : State) : Option (Except Int (List Word)) :=
  if type = .HOST_GRP ∧ words.any ('~' ∈ ·) ∧ options.noExpand = false then
    (resolveBatchNegHosts fuel s.table N.toHostNames false words).map fun r =>
      if r.result < 0 then .error r.result else .ok r.outHosts
  else some (.ok words)

def defineGroup (fuel : Nat) (options : Options) (name : Word) (words : List Word) (s : State) : Option State :=
  let gp := s.next
  let words := if words.contains ALL ∧ ¬words.any ('~' ∈ ·) then [ALL] else words
  (words.foldlM (fun s wp => (addMember N type fuel options true gp wp s).map Prod.snd) (addGroup name true s)).map
    fun s => if (s.ents gp).memberList = [] then { s with groups := s.groups.dropLast } else s

def Refused (options : Options) (name : Word) (s : State) : Prop :=
  name = ALL ∨ name = "default".toList ∨ name = "others".toList ∨
  (options.checks ∧ type = .USER_GRP ∧ (N.getpwlsfuser name ∨ name ∈ s.unknownUsers)) ∨
  (options.checks ∧ type = .HOST_GRP ∧ isHostName N.toHostNames name) ∨
  (options.checks ∧ (s.find name).isSome) ∨ MAX_GROUPS ≤ s.groups.length
  deriving Decidable

def doLine (fuel : Nat) (options : Options) (line : Line) (s : State) : Option (Bool × State) :=
  if Refused N type options line.GROUP_NAME s then some (true, s)
  else
    (resolved N type fuel options (line.words N type) s).bind fun
      | .error result => some (decide (result ≠ -1), s)
      | .ok words => (defineGroup N type fuel options line.GROUP_NAME words s).map (true, ·)

/-- `do_Groups`, from the line behind the keywords on -/
def doGroups (fuel : Nat) (options : Options) : List Line → State → Option State
  | [], s => some s
  | line :: lines, s =>
    (doLine N type fuel options line s).bind fun r => if r.1 then doGroups fuel options lines r.2 else some r.2

end

/-- A group has as members `closed` names, which are no group, and groups before it. -/
structure Nested (closed : Word → Prop) (T : GroupTab) : Prop where
  self : ∀ a ∈ T, ∀ w ∈ a.memberList, a.group ≠ some w
  order : T.Pairwise fun a b => ∀ w ∈ a.memberList, b.group ≠ some w
  names : T.Pairwise fun a b => ∀ v, a.group = some v → b.group ≠ some v
  member : ∀ a ∈ T, ∀ w ∈ a.memberList, closed w ∨ ∃ b ∈ T, b.group = some w
  opened : ∀ a ∈ T, ∀ v, a.group = some v → ¬closed v

variable {w : Word}

theorem Nested.nil : Nested closed [] := by constructor <;> simp

theorem Nested.first (h : Nested closed (T1 ++ T2)) : Nested closed T1 where
  self a ha := h.self a (by simp [ha])
  order := (pairwise_append.mp h.order).1
  names := (pairwise_append.mp h.names).1
  member a ha w hw := by
    rcases h.member a (by simp [ha]) w hw with hc | ⟨b, hb, hname⟩
    · exact .inl hc
    · rcases mem_append.mp hb with hb | hb
      · exact .inr ⟨b, hb, hname⟩
      · exact absurd hname ((pairwise_append.mp h.order).2.2 a ha b hb w hw)
  opened a ha := h.opened a (by simp [ha])

/-- A group without members whose name is new, or that has none, may stand anywhere. -/
theorem Nested.insert (h : Nested closed (T1 ++ T2)) (hmembers : e.memberList = [])
    (hnew : ∀ v, e.group = some v → ¬closed v ∧ ∀ a ∈ T1 ++ T2, a.group ≠ some v) : Nested closed (T1 ++ e :: T2) := by
  have hn : ∀ a ∈ T1 ++ T2, ∀ w ∈ a.memberList, e.group ≠ some w := by
    intro a ha w hw hname
    obtain ⟨ho, hf⟩ := hnew w hname
    rcases h.member a ha w hw with hc | ⟨b, hb, hs⟩
    · exact ho hc
    · exact hf b hb hs
  have hmem : ∀ a, a ∈ T1 ++ e :: T2 → a = e ∨ a ∈ T1 ++ T2 := fun a ha => by
    simp only [mem_append, mem_cons] at ha ⊢
    tauto
  constructor
  · intro a ha w hw
    rcases hmem a ha with rfl | ha
    · simp [hmembers] at hw
    · exact h.self a ha w hw
  · have ho := pairwise_append.mp h.order
    refine pairwise_append.mpr ⟨ho.1, pairwise_cons.mpr ⟨by simp [hmembers], ho.2.1⟩, fun a ha => ?_⟩
    exact forall_mem_cons.mpr ⟨hn a (by simp [ha]), ho.2.2 a ha⟩
  · have hn := pairwise_append.mp h.names
    refine pairwise_append.mpr ⟨hn.1, pairwise_cons.mpr ⟨fun b hb v hv => ?_, hn.2.1⟩, fun a ha => ?_⟩
    · exact (hnew v hv).2 b (by simp [hb])
    · exact forall_mem_cons.mpr ⟨fun v hv hname => (hnew v hname).2 a (by simp [ha]) hv, hn.2.2 a ha⟩
  · intro a ha w hw
    rcases hmem a ha with rfl | ha
    · simp [hmembers] at hw
    · rcases h.member a ha w hw with hc | ⟨b, hb, hname⟩
      · exact .inl hc
      · refine .inr ⟨b, ?_, hname⟩
        simp only [mem_append, mem_cons] at hb ⊢
        tauto
  · intro a ha v hv
    rcases hmem a ha with rfl | ha
    · exact (hnew v hv).1
    · exact h.opened a ha v hv

theorem Nested.put (h : Nested closed (T1 ++ e :: T2)) (hw : closed w ∨ ∃ b ∈ T1, b.group = some w) :
    Nested closed (T1 ++ { e with memberList := e.memberList ++ [w] } :: T2) := by
  obtain ⟨ho1, ho2, ho⟩ := pairwise_append.mp h.order
  obtain ⟨hn1, hn2, hn⟩ := pairwise_append.mp h.names
  obtain ⟨haft, ho2⟩ := pairwise_cons.mp ho2
  -- neither the group nor one behind it has the name
  have hnot : ∀ b ∈ e :: T2, b.group ≠ some w := fun b hb hname => by
    rcases hw with hc | ⟨a, ha, hs⟩
    · exact h.opened b (mem_append_right _ hb) w hname hc
    · exact hn a ha b hb w hs hname
  have hmem : ∀ a w', a ∈ T1 ++ { e with memberList := e.memberList ++ [w] } :: T2 → w' ∈ a.memberList →
      a.group = e.group ∧ w' = w ∨ ∃ a' ∈ T1 ++ e :: T2, a'.group = a.group ∧ w' ∈ a'.memberList := fun a w' ha hw' => by
    rcases mem_append.mp ha with ha | ha
    · exact .inr ⟨a, by simp [ha], rfl, hw'⟩
    · rcases mem_cons.mp ha with rfl | ha
      · rcases mem_append.mp hw' with hw' | hw'
        · exact .inr ⟨e, by simp, rfl, hw'⟩
        · exact .inl ⟨rfl, mem_singleton.mp hw'⟩
      · exact .inr ⟨a, by simp [ha], rfl, hw'⟩
  have hg : (T1 ++ { e with memberList := e.memberList ++ [w] } :: T2).map (·.group) =
      (T1 ++ e :: T2).map (·.group) := by simp
  have hgro : ∀ v, (∃ b ∈ T1 ++ { e with memberList := e.memberList ++ [w] } :: T2, b.group = v) ↔
      ∃ b ∈ T1 ++ e :: T2, b.group = v := fun v => by rw [← mem_map, ← mem_map, hg]
  constructor
  · intro a ha w' hw' hname
    rcases hmem a w' ha hw' with ⟨hs, rfl⟩ | ⟨a', ha', hs, hw'⟩
    · exact hnot e (by simp) (hs ▸ hname)
    · exact h.self a' ha' w' hw' (hs ▸ hname)
  · refine pairwise_append.mpr ⟨ho1, pairwise_cons.mpr ⟨fun b hb => ?_, ho2⟩, fun a ha => ?_⟩
    · exact forall_mem_append.mpr ⟨haft b hb, forall_mem_singleton.mpr (hnot b (by simp [hb]))⟩
    · exact forall_mem_cons.mpr ⟨ho a ha e (by simp), fun b hb => ho a ha b (by simp [hb])⟩
  · have hpai : ((T1 ++ e :: T2).map (·.group)).Pairwise fun x y => ∀ v, x = some v → y ≠ some v :=
      pairwise_map.mpr h.names
    rw [← hg] at hpai
    exact pairwise_map.mp hpai
  · intro a ha w' hw'
    rcases hmem a w' ha hw' with ⟨-, rfl⟩ | ⟨a', ha', -, hw'⟩
    · exact hw.imp_right fun ⟨b, hb, hname⟩ => ⟨b, by simp [hb], hname⟩
    · exact (h.member a' ha' w' hw').imp_right (hgro _).mpr
  · intro a ha v hv
    obtain ⟨b, hb, hname⟩ := (hgro (some v)).mp ⟨a, ha, hv⟩
    exact h.opened b hb v hname

theorem Nested.close (h : Nested closed T) (hmore : ∀ w, closed w → closed' w)
    (ho : ∀ a ∈ T, ∀ v, a.group = some v → closed' v → closed v) : Nested closed' T :=
  ⟨h.self, h.order, h.names, fun a ha w hw => (h.member a ha w hw).imp_left (hmore w),
    fun a ha v hv hc => h.opened a ha v hv (ho a ha v hv hc)⟩

theorem Nested.graded (h : Nested closed T) : Graded T T.length := graded_of_order h.self h.order

section

variable {s : State} {l1 l2 : List Nat}

theorem find_eq_none : s.find v = none ↔ ∀ a ∈ s.table, a.group ≠ some v := by
  simp [State.find, State.table]

theorem of_find (h : s.find v = some r) : r ∈ s.groups ∧ (s.ents r).group = some v :=
  ⟨mem_of_find?_eq_some h, by simpa using List.find?_some h⟩

theorem map_update (h : gp ∉ l1) (f : Nat → GroupInfoEnt) (e : GroupInfoEnt) : l1.map (update f gp e) = l1.map f := by
  refine map_congr_left fun r hr => update_of_ne ?_ _ _
  rintro rfl
  exact h hr

theorem table_append_of_notMem (h : gp ∉ s.groups) (w : Word) : (s.append gp w).table = s.table := map_update h _ _

theorem notMem_of_nodup (hn : (l1 ++ gp :: l2).Nodup) : gp ∉ l1 ∧ gp ∉ l2 := by
  have h := nodup_middle.mp hn
  simpa using (nodup_cons.mp h).1

theorem table_append (hg : s.groups = l1 ++ gp :: l2) (hn : s.groups.Nodup) (w : Word) : (s.append gp w).table =
      l1.map s.ents ++ { s.ents gp with memberList := (s.ents gp).memberList ++ [w] } :: l2.map s.ents := by
  obtain ⟨h1, h2⟩ := notMem_of_nodup (hg ▸ hn)
  change s.groups.map (update s.ents gp _) = _
  rw [hg, map_append, map_cons, map_update h1, map_update h2, update_self]

theorem dropLast_append_last (l : List Nat) : l.dropLast ++ l.getLast?.toList = l := by
  cases h : l.getLast? with
  | none => simp [List.getLast?_eq_none_iff.mp h]
  | some r => exact dropLast_append_getLast? r h

end

section

variable (N : Names) (type : GroupType) (options : Options)

/-- The names that can be no group. -/
def Closed (unknownUsers : List Word) (w : Word) : Prop :=
  w = ALL ∨
  match type with
  | .USER_GRP => N.getpwlsfuser w ∨ w ∈ unknownUsers ∨ options.expand = false ∧ (unixGrp N w).isSome
  | .HOST_GRP => isHostName N.toHostNames w

structure Inv (s : State) : Prop where
  nodup : s.groups.Nodup
  alloc : ∀ r ∈ s.groups, r < s.next
  small : s.groups.length ≤ MAX_GROUPS
  nested : Nested (Closed N type options s.unknownUsers) s.table

/-- A line is being read, and `gp` is its group, the last one of the table, unless it has left it. -/
structure Defining (gp : Nat) (s : State) : Prop extends Inv N type options s where
  alloc_gp : gp < s.next
  last : gp ∉ s.groups.dropLast

variable {N type options}

theorem Inv.graded (h : Inv N type options s) : Graded s.table s.groups.length := by
  have hl : s.table.length = s.groups.length := length_map _
  exact hl ▸ h.nested.graded

theorem Inv.append (h : Inv N type options s)
    (hw : ∀ l1 l2, s.groups = l1 ++ gp :: l2 → Closed N type options s.unknownUsers w ∨
      ∃ b ∈ l1, (s.ents b).group = some w) : Inv N type options (s.append gp w) := by
  refine ⟨h.nodup, h.alloc, h.small, ?_⟩
  by_cases hmem : gp ∈ s.groups
  · obtain ⟨l1, l2, hg⟩ := append_of_mem hmem
    have hn := h.nested
    rw [State.table, hg, map_append, map_cons] at hn
    rw [table_append hg h.nodup]
    refine hn.put ((hw l1 l2 hg).imp_right fun ⟨b, hb, hname⟩ => ?_)
    exact ⟨s.ents b, mem_map_of_mem hb, hname⟩
  · rw [table_append_of_notMem hmem]
    exact h.nested

theorem Inv.insert (h : Inv N type options s) (hg : s.groups = l1 ++ l2) (hroom : s.groups.length < MAX_GROUPS)
    (ho : ¬Closed N type options s.unknownUsers gname) (hnew : s.find gname = none) : Inv N type options { s with
      ents := update s.ents s.next { group := some gname }
      next := s.next + 1
      groups := l1 ++ s.next :: l2 } := by
  have hf : s.next ∉ s.groups := fun hmem => Nat.lt_irrefl _ (h.alloc _ hmem)
  have hperm : (l1 ++ s.next :: l2).Perm (s.next :: s.groups) := hg ▸ perm_middle
  have hn := h.nested
  rw [State.table, hg, map_append] at hn
  refine ⟨hperm.nodup_iff.mpr (nodup_cons.mpr ⟨hf, h.nodup⟩), fun r hr => ?_, ?_, ?_⟩
  · rcases mem_cons.mp (hperm.mem_iff.mp hr) with rfl | hr
    · exact Nat.lt_succ_self _
    · exact (h.alloc r hr).trans (Nat.lt_succ_self _)
  · rw [hperm.length_eq]
    exact hroom
  · rw [hg, mem_append, not_or] at hf
    change Nested _ ((l1 ++ s.next :: l2).map (update s.ents s.next { group := some gname }))
    rw [map_append, map_cons, map_update hf.1, map_update hf.2, update_self]
    refine hn.insert rfl fun v hv => ?_
    cases hv
    refine ⟨ho, ?_⟩
    rw [← map_append, ← hg]
    exact find_eq_none.mp hnew

theorem Inv.dropLast (h : Inv N type options s) : Inv N type options { s with groups := s.groups.dropLast } := by
  have hs : s.groups.dropLast.Sublist s.groups := dropLast_sublist _
  refine ⟨h.nodup.sublist hs, fun r hr => h.alloc r (hs.subset hr), hs.length_le.trans h.small, ?_⟩
  have hn := h.nested
  have hs : s.table = s.groups.dropLast.map s.ents ++ s.groups.getLast?.toList.map s.ents := by
    rw [← map_append, dropLast_append_last]
    rfl
  rw [hs] at hn
  exact hn.first

theorem Inv.free {last : Option Nat} (h : Inv N type options s) (hg : s.groups = l1 ++ r :: last.toList) :
    Inv N type options { s with ents := update s.ents r {}, groups := s.groups.dropLast } := by
  obtain ⟨hn, ha, hs, -⟩ := h.dropLast
  refine ⟨hn, ha, hs, ?_⟩
  obtain ⟨hnew, -⟩ := notMem_of_nodup (hg ▸ h.nodup)
  have hn := h.nested
  rw [State.table, hg, map_append] at hn
  have hf := hn.first
  change Nested _ (s.groups.dropLast.map (update s.ents r {}))
  cases last with
  | none =>
    rw [hg, Option.toList_none, dropLast_concat, map_update hnew]
    exact hf
  | some x =>
    have hd : (l1 ++ [r, x]).dropLast = l1 ++ [r] := by simp
    rw [hg, Option.toList_some, hd, map_append, map_update hnew]
    have hi : Nested (Closed N type options s.unknownUsers) (l1.map s.ents ++ ({} : GroupInfoEnt) :: []) :=
      Nested.insert (by simpa using hf) rfl (by simp)
    simpa using hi

theorem isInGrp_some (h : Inv N type options s) (hf : MAX_GROUPS + 1 < fuel) (gp : Nat) (word : Word)
    (checkAll : Bool) : ∃ found, isInGrp (same N type) s.table word fuel (some (s.ents gp)) checkAll = some found :=
  Option.isSome_iff_exists.mp (isInGrp_isSome h.graded word _ checkAll (by have := h.small; omega))

theorem putMember_some (h : Inv N type options s) (hfuel : MAX_GROUPS + 1 < fuel) (gp : Nat) (w : Word)
    (checkAll : Bool) : ∃ b s', putMember N type fuel gp w checkAll s = some (b, s') ∧ (s' = s ∨ s' = s.append gp w) := by
  obtain ⟨found, hf⟩ := isInGrp_some h hfuel gp w checkAll
  rw [putMember, hf, Option.map_some]
  cases found with
  | true => exact ⟨false, s, rfl, .inl rfl⟩
  | false => exact ⟨true, _, rfl, .inr rfl⟩

theorem addMember_user (h : Inv N .USER_GRP options s) (hf : MAX_GROUPS + 1 < fuel) (gp : Nat) (hw : N.getpwlsfuser w) :
    ∃ b s', addMember N .USER_GRP (fuel + 1) { expand := true } true gp w s = some (b, s') ∧
      (s' = s ∨ s' = s.append gp w) := by
  have hput := putMember_some h hf gp w true
  unfold addMember
  dsimp only
  rw [if_neg (by decide : ¬({ expand := true } : Options).noExpand = true)]
  split
  · exact hput
  · split
    · split
      · exact ⟨false, s, rfl, .inl rfl⟩
      · exact hput
    · rw [if_pos (.inl hw)]
      exact hput

theorem foldlM_some {f : σ → α → Option σ} {P : σ → Prop} {l : List α}
    (hstep : ∀ s, P s → ∀ a ∈ l, ∃ s', f s a = some s' ∧ P s') {s : σ} (hs : P s) :
    ∃ s', l.foldlM f s = some s' ∧ P s' := by
  induction l generalizing s with
  | nil => exact ⟨s, rfl, hs⟩
  | cons a l ih =>
    obtain ⟨s1, h1, hs1⟩ := hstep s hs a (by simp)
    obtain ⟨s', hr, hs'⟩ := ih (fun s hs b hb => hstep s hs b (by simp [hb])) hs1
    refine ⟨s', ?_, hs'⟩
    rw [foldlM_cons, h1]
    exact hr

theorem addUnixGrp_loop (h : Inv N .USER_GRP options s) (hf : MAX_GROUPS + 1 < fuel) (gp : Nat) (gr_mem : List Word) :
    ∃ s', gr_mem.foldlM (fun s mem => if N.getpwlsfuser mem then
        (addMember N .USER_GRP (fuel + 1) { expand := true } true gp mem s).map Prod.snd else some s) s = some s' ∧
      Inv N .USER_GRP options s' ∧ s'.groups = s.groups ∧ s'.next = s.next ∧
      ∀ r, (s'.ents r).group = (s.ents r).group := by
  refine foldlM_some (P := fun s' => Inv N .USER_GRP options s' ∧ s'.groups = s.groups ∧ s'.next = s.next ∧
    ∀ r, (s'.ents r).group = (s.ents r).group) ?_ ⟨h, rfl, rfl, fun _ => rfl⟩
  rintro s1 ⟨h1, hg, hnext, hn⟩ mem -
  split
  · rename_i hu
    obtain ⟨b, s2, ha, rfl | rfl⟩ := addMember_user h1 hf gp hu
    · exact ⟨s2, by rw [ha, Option.map_some], h1, hg, hnext, hn⟩
    · refine ⟨_, by rw [ha, Option.map_some], h1.append fun _ _ _ => .inl (.inr (.inl hu)), hg, hnext, fun r => ?_⟩
      rw [← hn r, State.append]
      by_cases hr : r = gp
      · subst hr
        simp
      · simp [hr]
  · exact ⟨s1, rfl, h1, hg, hnext, hn⟩

/-- The Unix group comes into the table, or nothing but an entry without a name. -/
theorem addUnixGrp_some (h : Defining N .USER_GRP options gp s) (hf : MAX_GROUPS + 1 < fuel)
    (ho : ¬Closed N .USER_GRP options s.unknownUsers gname) (hn : s.find gname = none) (gr_mem : List Word) :
    ∃ b s', addUnixGrp N (addMember N .USER_GRP (fuel + 1) { expand := true } true) gr_mem gname s = some (b, s') ∧
      Defining N .USER_GRP options gp s' ∧ (b = true → ∃ r ∈ s'.groups, r ≠ gp ∧ (s'.ents r).group = some gname) := by
  unfold addUnixGrp
  by_cases hr : MAX_GROUPS ≤ s.groups.length
  · rw [if_pos hr]
    exact ⟨false, s, rfl, h, fun hb => by cases hb⟩
  rw [if_neg hr]
  have hi : Inv N .USER_GRP options (addGroup gname false s) :=
    h.toInv.insert (dropLast_append_last s.groups).symm (by omega) ho hn
  obtain ⟨s1, hl, h1, hg, hnext, hn⟩ := addUnixGrp_loop hi hf s.next gr_mem
  have hg1 : s1.groups = s.groups.dropLast ++ s.next :: s.groups.getLast?.toList := hg
  have hnext1 : s1.next = s.next + 1 := hnext
  have ha := h.alloc_gp
  have hne : s.next ≠ gp := by omega
  dsimp only
  rw [hl, Option.map_some]
  have hlast : ∀ r ∈ s1.groups.dropLast, r = s.next ∨ r ∈ s.groups.dropLast := fun r hr => by
    rw [hg1] at hr
    cases hs : s.groups.getLast? with
    | none =>
      rw [hs, Option.toList_none, dropLast_concat] at hr
      exact .inr hr
    | some x =>
      have hd : (s.groups.dropLast ++ [s.next, x]).dropLast = s.groups.dropLast ++ [s.next] := by simp
      rw [hs, Option.toList_some, hd] at hr
      simpa [or_comm] using hr
  have hgp : gp ∉ s1.groups.dropLast := fun hmem => (hlast gp hmem).elim hne.symm h.last
  split
  · refine ⟨false, _, rfl, ⟨h1.free hg1, by dsimp only; omega, fun hmem => ?_⟩, fun hb => by cases hb⟩
    exact hgp (dropLast_subset _ hmem)
  · refine ⟨true, s1, rfl, ⟨h1, by omega, hgp⟩, fun _ => ⟨s.next, by simp [hg1], hne, ?_⟩⟩
    simp [hn, addGroup]

theorem Defining.append (h : Defining N type options gp s)
    (hw : Closed N type options s.unknownUsers w ∨ ∃ r ∈ s.groups, r ≠ gp ∧ (s.ents r).group = some w) :
    Defining N type options gp (s.append gp w) := by
  refine ⟨h.toInv.append fun l1 l2 hg => hw.imp_right fun ⟨r, hr, hne, hname⟩ => ⟨r, ?_, hname⟩, h.alloc_gp, h.last⟩
  have hmem : gp ∈ s.groups := by simp [hg]
  have hl2 : l2 = [] := by
    by_contra hne2
    refine h.last ?_
    obtain ⟨x, l, rfl⟩ := exists_cons_of_ne_nil hne2
    rw [hg, dropLast_append_cons, dropLast_cons_cons]
    simp
  subst hl2
  rw [hg] at hr
  simpa [hne] using hr

theorem putMember_defining (h : Defining N type options gp s) (hf : MAX_GROUPS + 1 < fuel) (checkAll : Bool)
    (hw : Closed N type options s.unknownUsers w ∨ ∃ r ∈ s.groups, r ≠ gp ∧ (s.ents r).group = some w) :
    ∃ b s', putMember N type fuel gp w checkAll s = some (b, s') ∧ Defining N type options gp s' := by
  obtain ⟨b, s', hput, rfl | rfl⟩ := putMember_some h.toInv hf gp w checkAll
  · exact ⟨b, s', hput, h⟩
  · exact ⟨b, _, hput, h.append hw⟩

theorem Defining.remember (h : Defining N .USER_GRP options gp s) (hn : s.find w = none) :
    Defining N .USER_GRP options gp { s with unknownUsers := w :: s.unknownUsers } := by
  refine ⟨⟨h.nodup, h.alloc, h.small, h.nested.close (fun v hv => ?_) fun a ha v hv hc => ?_⟩, h.alloc_gp, h.last⟩
  · simp only [Closed, mem_cons] at hv ⊢
    tauto
  · have hne : v ≠ w := fun hvw => find_eq_none.mp hn a ha (hvw ▸ hv)
    simpa [Closed, hne] using hc

theorem addMember_defining (h : Defining N type options gp s) (hfuel : MAX_GROUPS + 2 < fuel) (checkAll : Bool)
    (hc : options.checks) (ht : options.noExpand → w.head? ≠ some '~') :
    ∃ b s', addMember N type (fuel + 1) options checkAll gp w s = some (b, s') ∧ Defining N type options gp s' := by
  have hput := putMember_defining (w := w) h (by omega : MAX_GROUPS + 1 < fuel) checkAll
  have hw : (if options.noExpand then (if w.head? = some '~' then w.tail else w) else w) = w := by
    split
    · rename_i hno
      rw [if_neg (ht hno)]
    · rfl
  unfold addMember
  dsimp only
  rw [hw]
  by_cases ha : w = ALL
  · rw [if_pos (.inl ha)]
    exact hput (.inl (.inl ha))
  rw [if_neg (by simp [ha, hc])]
  cases hf : s.find w with
  | some sub =>
    obtain ⟨hmem, hname⟩ := of_find hf
    dsimp only
    split
    · exact ⟨false, s, rfl, h⟩
    · exact hput (.inr ⟨sub, hmem, ‹_›, hname⟩)
  | none =>
    cases type with
    | USER_GRP =>
      simp only [contains_iff_mem]
      by_cases hu : N.getpwlsfuser w ∨ w ∈ s.unknownUsers
      · rw [if_pos hu]
        exact hput (.inl (.inr (hu.imp_right .inl)))
      rw [if_neg hu]
      obtain ⟨fuel, rfl⟩ : ∃ k, fuel = k + 1 := ⟨fuel - 1, by omega⟩
      cases hunix : unixGrp N w with
      | none =>
        exact putMember_defining (h.remember hf) (by omega) checkAll (.inl (.inr (.inr (.inl (by simp)))))
      | some gr_mem =>
        dsimp only
        by_cases he : options.expand = true
        · have ho : ¬Closed N .USER_GRP options s.unknownUsers w := by
            simpa [Closed, ha, he] using hu
          obtain ⟨b, s1, ha, h1, hg⟩ := addUnixGrp_some h (by omega : MAX_GROUPS + 1 < fuel) ho hf gr_mem
          rw [if_pos he, ha, Option.bind_some]
          cases b with
          | false => exact ⟨false, s1, rfl, h1⟩
          | true => exact putMember_defining h1 (by omega) checkAll (.inr (hg rfl))
        · rw [if_neg he]
          exact hput (.inl (.inr (.inr (.inr ⟨by simpa using he, by simp [hunix]⟩))))
    | HOST_GRP =>
      cases hhost : N.Gethostbyname w with
      | none => exact ⟨false, s, rfl, h⟩
      | some name =>
        dsimp only
        split
        · exact ⟨false, s, rfl, h⟩
        · split
          · exact ⟨false, s, rfl, h⟩
          · exact hput (.inl (.inr (by simp [isHostName, hhost])))

/-- Without expansion no line is named as a Unix group, and no word that is kept begins with a
`~`. -/
def Line.Plain (N : Names) (type : GroupType) (options : Options) (line : Line) : Prop :=
  (type = .USER_GRP → options.expand = false → unixGrp N line.GROUP_NAME = none) ∧
  (options.noExpand → ∀ word ∈ line.words N type, word.head? ≠ some '~')

theorem not_closed_of_not_refused {line : Line} (hpla : line.Plain N type options) (hc : options.checks)
    (h : ¬Refused N type options line.GROUP_NAME s) : ¬Closed N type options s.unknownUsers line.GROUP_NAME ∧
    s.find line.GROUP_NAME = none ∧ s.groups.length < MAX_GROUPS := by
  simp only [Refused, hc, not_or, true_and, not_le] at h
  obtain ⟨ha, -, -, hu, hhost, hf, hr⟩ := h
  refine ⟨fun hc => ?_, by simpa using hf, hr⟩
  rcases hc with hc | hc
  · exact ha hc
  · cases type with
    | USER_GRP =>
      rcases hc with hc | hc | ⟨he, hc⟩
      · exact hu ⟨rfl, .inl hc⟩
      · exact hu ⟨rfl, .inr hc⟩
      · simp [hpla.1 rfl he] at hc
    | HOST_GRP => exact hhost ⟨rfl, hc⟩

theorem addMembers_defining (h : Defining N type options gp s) (hf : MAX_GROUPS + 2 < fuel) (hc : options.checks)
    {words : List Word} (ht : options.noExpand → ∀ word ∈ words, word.head? ≠ some '~') :
    ∃ s', words.foldlM (fun s wp => (addMember N type (fuel + 1) options true gp wp s).map Prod.snd) s = some s' ∧
      Defining N type options gp s' := by
  refine foldlM_some (fun s hs wp hwp => ?_) h
  obtain ⟨b, s', ha, hs'⟩ := addMember_defining hs hf true hc fun hno => ht hno wp hwp
  exact ⟨s', by rw [ha, Option.map_some], hs'⟩

theorem defineGroup_inv (h : Inv N type options s) (hf : MAX_GROUPS + 3 < fuel) (hc : options.checks)
    (ho : ¬Closed N type options s.unknownUsers gname) (hn : s.find gname = none) (hr : s.groups.length < MAX_GROUPS)
    {words : List Word} (ht : options.noExpand → ∀ word ∈ words, word.head? ≠ some '~') :
    ∃ s', defineGroup N type fuel options gname words s = some s' ∧ Inv N type options s' := by
  obtain ⟨fuel, rfl⟩ : ∃ k, fuel = k + 1 := ⟨fuel - 1, by omega⟩
  have hf : s.next ∉ s.groups := fun hmem => Nat.lt_irrefl _ (h.alloc _ hmem)
  have hs : Defining N type options s.next (addGroup gname true s) := by
    refine ⟨h.insert (append_nil s.groups).symm hr ho hn, Nat.lt_succ_self _, ?_⟩
    simpa [addGroup] using hf
  have ht' : options.noExpand → ∀ word ∈ (if words.contains ALL ∧ ¬words.any ('~' ∈ ·) then [ALL] else words),
      word.head? ≠ some '~' := fun hno word hw => by
    split at hw
    · rw [mem_singleton.mp hw]
      decide
    · exact ht hno word hw
  obtain ⟨s', hr, h'⟩ := addMembers_defining hs (by omega : MAX_GROUPS + 2 < fuel) hc ht'
  unfold defineGroup
  dsimp only
  rw [hr, Option.map_some]
  split
  · exact ⟨_, rfl, h'.toInv.dropLast⟩
  · exact ⟨s', rfl, h'.toInv⟩

theorem doLine_inv {line : Line} (h : Inv N type options s) (hf : MAX_GROUPS + 3 < fuel) (hc : options.checks)
    (hpla : line.Plain N type options) : ∃ r, doLine N type fuel options line s = some r ∧ Inv N type options r.2 := by
  unfold doLine
  by_cases hr : Refused N type options line.GROUP_NAME s
  · rw [if_pos hr]
    exact ⟨_, rfl, h⟩
  rw [if_neg hr]
  obtain ⟨ho, hn, hroom⟩ := not_closed_of_not_refused hpla hc hr
  have hd : ∀ words, (options.noExpand → ∀ word ∈ words, word.head? ≠ some '~') →
      ∃ s', defineGroup N type fuel options line.GROUP_NAME words s = some s' ∧ Inv N type options s' := fun words =>
    defineGroup_inv h hf hc ho hn hroom
  unfold resolved
  by_cases hn : type = .HOST_GRP ∧ (line.words N type).any ('~' ∈ ·) ∧ options.noExpand = false
  · have hres : (resolveBatchNegHosts fuel s.table N.toHostNames false (line.words N type)).isSome :=
      resolveBatchNegHosts_isSome h.graded (by omega) _
    obtain ⟨r, hr⟩ := Option.isSome_iff_exists.mp hres
    rw [if_pos hn, hr, Option.map_some, Option.bind_some]
    by_cases hr : r.result < 0
    · rw [if_pos hr]
      exact ⟨_, rfl, h⟩
    · obtain ⟨s', hs', h'⟩ := hd r.outHosts fun hno => by simp [hn.2.2] at hno
      rw [if_neg hr]
      dsimp only
      rw [hs', Option.map_some]
      exact ⟨_, rfl, h'⟩
  · obtain ⟨s', hs', h'⟩ := hd (line.words N type) hpla.2
    rw [if_neg hn, Option.bind_some]
    dsimp only
    rw [hs', Option.map_some]
    exact ⟨_, rfl, h'⟩

theorem doGroups_inv (h : Inv N type options s) (hf : MAX_GROUPS + 3 < fuel)
    (hc : options.checks) (hpla : ∀ line ∈ lines, line.Plain N type options) :
    ∃ s', doGroups N type fuel options lines s = some s' ∧ Inv N type options s' := by
  induction lines generalizing s with
  | nil => exact ⟨s, rfl, h⟩
  | cons line lines ih =>
    obtain ⟨r, hl, hr⟩ := doLine_inv h hf hc (hpla line (by simp))
    rw [doGroups, hl, Option.bind_some]
    split
    · exact ih hr fun line hmem => hpla line (by simp [hmem])
    · exact ⟨r.2, rfl, hr⟩

end

/-- The sections are read, no group is within itself, and the expansions end, for plain lines. -/
theorem doGroups_acyclic (N : Names) (type : GroupType) (options : Options) (hchecks : options.checks) (lines : List Line)
    (hplain : ∀ line ∈ lines, line.Plain N type options) (unknownUsers : List Word) {fuel : Nat}
    (hfuel : MAX_GROUPS + 3 < fuel) : ∃ s, doGroups N type fuel options lines { unknownUsers } = some s ∧
      (∀ v, ¬Relation.TransGen (Within s.table) v v) ∧
      (∀ word buffer, (expandGrp s.table fuel word buffer).isSome) ∧
      ∀ word gp checkAll, (isInGrp (same N type) s.table word fuel gp checkAll).isSome := by
  have hs : Inv N type options { unknownUsers } := ⟨nodup_nil, by simp, by simp, Nested.nil⟩
  obtain ⟨s, hr, h⟩ := doGroups_inv hs hfuel hchecks hplain
  have hs := h.small
  exact ⟨s, hr, h.graded.acyclic, fun word buffer => expandGrp_isSome h.graded word buffer (by omega),
    fun word gp checkAll => isInGrp_isSome h.graded word gp checkAll (by omega)⟩

/-- The user `u`, the host `h` and the Unix group `g` with the user in it. -/
def someNames : Names where
  Gethostbyname w := if w = "h".toList then some w else none
  hosts := ["h".toList]
  clusterHosts := ["h".toList]
  equalHost w v := w = v
  getpwlsfuser w := w = "u".toList
  mygetgrnam w := if w = "g".toList then some ["u".toList] else none
  isServerHost _ := true
  runEGroup _ _ := none

/-- With expansion the Unix group comes before the group it is in, and a line for it is refused. -/
theorem doGroups_acyclic_unixGroup : (doGroups someNames .USER_GRP 154 { expand := true }
      [⟨"a".toList, ["g".toList, "x".toList]⟩, ⟨"g".toList, ["a".toList]⟩] {}).map State.table =
      some [⟨some "g".toList, ["u".toList]⟩, ⟨some "a".toList, ["g".toList, "x".toList]⟩] ∧
    ∃ s, doGroups someNames .USER_GRP 154 { expand := true }
        [⟨"a".toList, ["g".toList, "x".toList]⟩, ⟨"g".toList, ["a".toList]⟩] {} = some s ∧
      ¬Relation.TransGen (Within s.table) "a".toList "a".toList := by
  refine ⟨by decide +kernel, ?_⟩
  obtain ⟨s, hr, ha, -⟩ := doGroups_acyclic someNames .USER_GRP { expand := true } rfl
    [⟨"a".toList, ["g".toList, "x".toList]⟩, ⟨"g".toList, ["a".toList]⟩]
    (fun line _ => ⟨fun _ h => (by cases h), fun h => (by cases h)⟩) [] (by decide : MAX_GROUPS + 3 < 154)
  exact ⟨s, hr, ha _⟩

def circle (v w : Word) : GroupTab := [⟨some v, [w]⟩, ⟨some w, [v]⟩]

theorem circle_endless (hne : v ≠ w) (hv : v ≠ ALL) (hw : w ≠ ALL) :
    Relation.TransGen (Within (circle v w)) v v ∧ ∀ fuel buffer, expandGrp (circle v w) fuel v buffer = none := by
  have hf : getGrpData (circle v w) v = some ⟨some v, [w]⟩ := by simp [getGrpData, circle]
  have hs : getGrpData (circle v w) w = some ⟨some w, [v]⟩ := by simp [getGrpData, circle, hne]
  refine ⟨.tail (.single ⟨_, hf, by simp, by simp [hs]⟩) ⟨_, hs, by simp, by simp [hf]⟩, ?_⟩
  have hb : ∀ fuel, (∀ buffer, expandGrp (circle v w) fuel v buffer = none) ∧
      ∀ buffer, expandGrp (circle v w) fuel w buffer = none := fun fuel => by
    induction fuel with
    | zero => exact ⟨fun _ => rfl, fun _ => rfl⟩
    | succ fuel ih =>
      exact ⟨expandGrp_eq_none hf rfl (by simpa using hw) (by simp [hs]) ih.2,
        expandGrp_eq_none hs rfl (by simpa using hv) (by simp [hf]) ih.1⟩
  exact fun fuel => (hb fuel).1

/-- A Unix group is a member before a line names it, or a kept `~` begins a later name. -/
theorem doGroups_not_acyclic : (∃ s, doGroups someNames .USER_GRP 154 { check := true }
        [⟨"a".toList, ["g".toList]⟩, ⟨"g".toList, ["a".toList]⟩] {} = some s ∧
      Relation.TransGen (Within s.table) "a".toList "a".toList ∧
      ∀ fuel buffer, expandGrp s.table fuel "a".toList buffer = none) ∧
    ∃ s, doGroups someNames .HOST_GRP 154 { noExpand := true }
        [⟨"a".toList, ["~h".toList]⟩, ⟨"~h".toList, ["a".toList]⟩] {} = some s ∧
      Relation.TransGen (Within s.table) "a".toList "a".toList ∧
      ∀ fuel buffer, expandGrp s.table fuel "a".toList buffer = none := by
  constructor
  · have ht : (doGroups someNames .USER_GRP 154 { check := true }
        [⟨"a".toList, ["g".toList]⟩, ⟨"g".toList, ["a".toList]⟩] {}).map State.table =
        some (circle "a".toList "g".toList) := by decide +kernel
    obtain ⟨s, hr, hs⟩ := Option.map_eq_some_iff.mp ht
    exact ⟨s, hr, hs ▸ circle_endless (by decide) (by decide) (by decide)⟩
  · have ht : (doGroups someNames .HOST_GRP 154 { noExpand := true }
        [⟨"a".toList, ["~h".toList]⟩, ⟨"~h".toList, ["a".toList]⟩] {}).map State.table =
        some (circle "a".toList "~h".toList) := by decide +kernel
    obtain ⟨s, hr, hs⟩ := Option.map_eq_some_iff.mp ht
    exact ⟨s, hr, hs ▸ circle_endless (by decide) (by decide) (by decide)⟩

end OpenLava.DoGroups

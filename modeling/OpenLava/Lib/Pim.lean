import Mathlib.Data.List.Chain
import Mathlib.Data.List.Induction
import Mathlib.Data.List.Nodup

/-!
# Reading the process information of a job

`readPIMInfo` of `lib.pim.c` goes once through the records that the PIM wrote. A process is taken where its group is in
the list, or where its parent was taken.
-/

namespace OpenLava.Pim

open List

inductive LsPStatType where
  | LS_PSTAT_RUNNING
  | LS_PSTAT_INTERRUPTIBLE
  | LS_PSTAT_UNINTERRUPTIBLE
  | LS_PSTAT_ZOMBI
  | LS_PSTAT_STOPPED
  | LS_PSTAT_SWAPPED
  | LS_PSTAT_SLEEP
  | LS_PSTAT_EXITING
  deriving DecidableEq

structure LsPidInfo where
  (pid ppid pgid jobid utime stime proc_size resident_size stack_size : Int := 0)
  status : LsPStatType := .LS_PSTAT_RUNNING
  deriving DecidableEq

structure PidInfo where
  (pid ppid pgid jobid : Int)
  deriving DecidableEq

def LsPidInfo.info (p : LsPidInfo) : PidInfo := ⟨p.pid, p.ppid, p.pgid, p.jobid⟩

structure Lists where
  pgidList : List Int
  pidList : List PidInfo

/-- There is nothing where the source returns 0. -/
def inAddPList (p : LsPidInfo) (s : Lists) : Option Lists :=
  if p.pgid ∈ s.pgidList then some (if -1 < p.pid then { s with pidList := s.pidList ++ [p.info] } else s)
  else if p.pid < 0 then none
  else if p.ppid ∈ s.pidList.map PidInfo.pid then some ⟨s.pgidList ++ [p.pgid], s.pidList ++ [p.info]⟩
  else none

structure JRusage where
  (mem swap utime stime : Int := 0)
  (pidInfo : List PidInfo) (pgid : List Int)
  deriving DecidableEq

/-- The loop over the records; there is nothing where a record has no size yet. -/
def scan : List LsPidInfo → Lists → JRusage → Bool → Option (Lists × JRusage × Bool)
  | [], s, jru, found => some (s, jru, found)
  | p :: table, s, jru, found =>
    match inAddPList p s with
    | none => scan table s jru found
    | some s =>
      if p.status = .LS_PSTAT_ZOMBI ∨ p.status = .LS_PSTAT_EXITING then scan table s jru found
      else if p.stack_size = -1 then none
      else
        let jru := { jru with
          mem := jru.mem + p.resident_size, swap := jru.swap + p.proc_size,
          utime := jru.utime + p.utime, stime := jru.stime + p.stime }
        scan table s jru (found || -1 < p.pid)

/-- The loop that deletes the inactive groups from both arrays. -/
def dropInactive : Nat → Nat → Nat → List Bool → List Int → List Int
  | 0, _, _, _, pgidList => pgidList
  | turns + 1, i, n, activeInPGid, pgidList =>
    if i < n then
      if activeInPGid[i]? = some false then
        dropInactive turns (i + 1) (n - 1) (activeInPGid.eraseIdx i) (pgidList.eraseIdx i)
      else dropInactive turns (i + 1) n activeInPGid pgidList
    else pgidList

/-- `PIM_API_TREAT_JID_AS_PGID` -/
def byJob (jidAsPgid : Bool) (pinfoList : List LsPidInfo) : List LsPidInfo :=
  if jidAsPgid then pinfoList.map fun p => { p with pgid := p.jobid } else pinfoList

def active (table : List LsPidInfo) (g : Int) : Bool := table.any fun p => p.pgid = g

def readPIMInfo (jidAsPgid : Bool) (inPGid : List Int) (pinfoList : List LsPidInfo) : Option JRusage :=
  let table := byJob jidAsPgid pinfoList
  match scan table ⟨inPGid, []⟩ { pidInfo := [], pgid := [] } false with
  | some (s, jru, true) =>
    let n := inPGid.length
    some { jru with pidInfo := s.pidList, pgid := dropInactive n 0 n (inPGid.map (active table)) s.pgidList }
  | _ => none

/-- The lists after some records. -/
def gather (inPGid : List Int) (table : List LsPidInfo) : Lists :=
  table.foldl (fun s p => (inAddPList p s).getD s) ⟨inPGid, []⟩

/-- The processes asked for, and what descends from them, with the others of its group. -/
inductive Belongs (inPGid : List Int) (table : List LsPidInfo) : LsPidInfo → Prop where
  | asked (hp : p ∈ table) (hpid : -1 < p.pid) (h : p.pgid ∈ inPGid) : Belongs inPGid table p
  | child (hp : p ∈ table) (hpid : -1 < p.pid) (hq : Belongs inPGid table q) (h : p.ppid = q.pid) : Belongs inPGid table p
  | mate (hp : p ∈ table) (hpid : -1 < p.pid) (hq : Belongs inPGid table q) (h : p.pgid = q.pgid) : Belongs inPGid table p

/-- The first process of each further group is the child of a process of the job that is listed before it. -/
def NewGroups (inPGid : List Int) (table : List LsPidInfo) : Prop :=
  ∀ l1 p l2, table = l1 ++ p :: l2 → Belongs inPGid table p → p.pgid ∉ inPGid →
    (∀ q ∈ l1, -1 < q.pid → q.pgid ≠ p.pgid) → ∃ q ∈ l1, Belongs inPGid table q ∧ q.pid = p.ppid

theorem scan_lists (h : scan table s jru found = some r) : r.1 = table.foldl (fun s p => (inAddPList p s).getD s) s := by
  induction table generalizing s jru found with
  | nil =>
    obtain rfl : (s, jru, found) = r := by simpa [scan] using h
    rfl
  | cons p table ih =>
    unfold scan at h
    rw [foldl_cons]
    cases hp : inAddPList p s with
    | none =>
      simp only [hp] at h
      exact ih h
    | some s' =>
      simp only [hp] at h
      split_ifs at h
      · exact ih h
      · exact ih h

theorem dropInactive_done (h : n ≤ i) : dropInactive turns i n flags pgids = pgids := by
  cases turns with
  | zero => rfl
  | succ turns => rw [dropInactive, if_neg (Nat.not_lt.mpr h)]

/-- The groups that the loop leaves: the one behind a deleted group is passed over. -/
def leaves (act : Int → Bool) : List Int → List Int
  | [] => []
  | g :: gs =>
    if act g then g :: leaves act gs
    else match gs with
      | [] => []
      | g' :: gs => g' :: leaves act gs

theorem leaves_of_active (h : act g = true) (gs : List Int) : leaves act (g :: gs) = g :: leaves act gs := by
  cases gs <;> simp [leaves, h]

theorem dropInactive_eq (act : Int → Bool) (found : List Int) (ht : todo.length ≤ turns) :
    dropInactive turns done.length (done.length + todo.length) ((done ++ todo).map act) (done ++ todo ++ found) =
      done ++ leaves act todo ++ found := by
  induction turns generalizing done todo with
  | zero =>
    obtain rfl : todo = [] := length_eq_zero_iff.mp (Nat.le_zero.mp ht)
    simp [dropInactive, leaves]
  | succ turns ih =>
    cases todo with
    | nil => simp [dropInactive, leaves]
    | cons g todo =>
      have ht' : todo.length ≤ turns := Nat.le_of_succ_le_succ ht
      rw [dropInactive, if_pos (by simp)]
      cases ha : act g with
      | true =>
        have hr := @ih (done ++ [g]) todo ht'
        simpa [leaves_of_active ha, ha, Nat.add_comm, Nat.add_left_comm] using hr
      | false =>
        cases todo with
        | nil => simp [leaves, dropInactive_done, eraseIdx_append_of_length_le, ha]
        | cons g' todo =>
          -- the group behind it moves to its place and is passed over
          have hr := @ih (done ++ [g']) todo (Nat.le_of_succ_le ht')
          simpa [leaves, ha, eraseIdx_append_of_length_le, Nat.add_comm, Nat.add_left_comm] using hr

theorem leaves_eq_filter_iff (act : Int → Bool) (gs : List Int) :
    leaves act gs = gs.filter act ↔ gs.IsChain fun g g' => act g = true ∨ act g' = true := by
  fun_induction leaves act gs with
  | case1 => simp
  | case2 g gs ha ih => simp [ha, ih, isChain_cons]
  | case3 g ha => simp [ha]
  | case4 g ha g' gs ih =>
    cases ha' : act g' with
    | true => simp [ha, ha', ih, isChain_cons]
    | false =>
      refine iff_of_false (fun heq => ?_) (fun hc => ?_)
      · have hmem : g' ∈ (g :: g' :: gs).filter act := heq ▸ mem_cons_self
        rw [(mem_filter.mp hmem).2] at ha'
        cases ha'
      · simp [ha, ha'] at hc

theorem leaves_subset (act : Int → Bool) (gs : List Int) : leaves act gs ⊆ gs := by
  fun_induction leaves act gs with
  | case1 => simp
  | case2 g gs ha ih => exact cons_subset_cons g ih
  | case3 g ha => simp
  | case4 g ha g' gs ih => exact fun x hx => mem_cons_of_mem _ (cons_subset_cons g' ih hx)

theorem leaves_active (act : Int → Bool) (gs : List Int) (h : ∀ g ∈ leaves act gs, act g = true) :
    leaves act gs = gs.filter act := by
  fun_induction leaves act gs with
  | case1 => rfl
  | case2 g gs ha ih => simp [ha, ih fun x hx => h x (mem_cons_of_mem _ hx)]
  | case3 g ha => simp [ha]
  | case4 g ha g' gs ih =>
    simp [ha, h g' mem_cons_self, ih fun x hx => h x (mem_cons_of_mem _ hx)]

theorem gather_append (inPGid : List Int) (table : List LsPidInfo) (p : LsPidInfo) :
    gather inPGid (table ++ [p]) = (inAddPList p (gather inPGid table)).getD (gather inPGid table) := by
  simp [gather]

theorem gather_cases (inPGid : List Int) (table : List LsPidInfo) (p : LsPidInfo) :
    let s := gather inPGid table
    let s' := gather inPGid (table ++ [p])
    p.pgid ∈ s.pgidList ∧ s' = { s with pidList := s.pidList ++ if -1 < p.pid then [p.info] else [] } ∨
      p.pgid ∉ s.pgidList ∧ -1 < p.pid ∧ p.ppid ∈ s.pidList.map PidInfo.pid ∧
        s' = ⟨s.pgidList ++ [p.pgid], s.pidList ++ [p.info]⟩ ∨
      p.pgid ∉ s.pgidList ∧ (-1 < p.pid → p.ppid ∉ s.pidList.map PidInfo.pid) ∧ s' = s := by
  intro s s'
  have hs' : s' = (inAddPList p s).getD s := gather_append inPGid table p
  by_cases hg : p.pgid ∈ s.pgidList
  · refine .inl ⟨hg, ?_⟩
    rw [hs', inAddPList, if_pos hg]
    split_ifs <;> simp
  · refine .inr ?_
    rw [hs', inAddPList, if_neg hg]
    by_cases hpid : p.pid < 0
    · exact .inr ⟨hg, fun h => absurd h (by omega), by simp [hpid]⟩
    · by_cases hpar : p.ppid ∈ s.pidList.map PidInfo.pid
      · refine .inl ⟨hg, by omega, hpar, ?_⟩
        rw [if_neg hpid, if_pos hpar]
        rfl
      · refine .inr ⟨hg, fun _ => hpar, ?_⟩
        rw [if_neg hpid, if_neg hpar]
        rfl

theorem gather_mono (l' : List LsPidInfo) : (gather inPGid l).pgidList ⊆ (gather inPGid (l ++ l')).pgidList ∧
    (gather inPGid l).pidList ⊆ (gather inPGid (l ++ l')).pidList := by
  induction l' using List.reverseRecOn with
  | nil => simp
  | append_singleton l' p ih =>
    rw [← append_assoc]
    rcases gather_cases inPGid (l ++ l') p with ⟨-, h⟩ | ⟨-, -, -, h⟩ | ⟨-, -, h⟩ <;> rw [h]
    · exact ⟨ih.1, subset_append_of_subset_left _ ih.2⟩
    · exact ⟨subset_append_of_subset_left _ ih.1, subset_append_of_subset_left _ ih.2⟩
    · exact ih

/-- The list begins with the groups asked for, and each one behind is the group of a descendant. -/
theorem gather_found (hl : l ⊆ table) :
    (∀ x ∈ (gather inPGid l).pidList, ∃ p, Belongs inPGid table p ∧ p.info = x) ∧
      ∃ found, (gather inPGid l).pgidList = inPGid ++ found ∧ found.Nodup ∧
        ∀ g ∈ found, g ∉ inPGid ∧ ∃ p, Belongs inPGid table p ∧ p.pgid = g := by
  induction l using List.reverseRecOn with
  | nil => exact ⟨by simp [gather], [], by simp [gather]⟩
  | append_singleton l p ih =>
    obtain ⟨hpids, found, hgro, hn, hf⟩ := ih fun _ hx => hl (mem_append_left _ hx)
    have hp : p ∈ table := hl (by simp)
    rcases gather_cases inPGid l p with ⟨hg, h⟩ | ⟨hg, hpid, hpar, h⟩ | ⟨-, -, h⟩ <;> rw [h]
    · refine ⟨fun x hx => ?_, found, hgro, hn, hf⟩
      rcases mem_append.mp hx with hx | hx
      · exact hpids x hx
      · split_ifs at hx with hpid
        · obtain rfl : x = p.info := by simpa using hx
          rw [hgro, mem_append] at hg
          refine ⟨p, ?_, rfl⟩
          rcases hg with hg | hg
          · exact .asked hp hpid hg
          · obtain ⟨-, q, hq, hpq⟩ := hf _ hg
            exact .mate hp hpid hq hpq.symm
        · simp at hx
    · obtain ⟨x, hx, hxpid⟩ := mem_map.mp hpar
      obtain ⟨q, hq, rfl⟩ := hpids x hx
      have hbel : Belongs inPGid table p := .child hp hpid hq hxpid.symm
      rw [hgro, mem_append, not_or] at hg
      refine ⟨fun x hx => ?_, found ++ [p.pgid], by simp [hgro], ?_, fun g hg' => ?_⟩
      · rcases mem_append.mp hx with hx | hx
        · exact hpids x hx
        · exact ⟨p, hbel, (mem_singleton.mp hx).symm⟩
      · exact nodup_append.mpr ⟨hn, nodup_singleton _, fun a ha b hb => by
          rw [mem_singleton.mp hb]
          exact fun heq => hg.2 (heq ▸ ha)⟩
      · rcases mem_append.mp hg' with hg' | hg'
        · exact hf g hg'
        · obtain rfl := mem_singleton.mp hg'
          exact ⟨hg.1, p, hbel, rfl⟩
    · exact ⟨hpids, found, hgro, hn, hf⟩

theorem Belongs.mono (hl : l ⊆ table) (h : Belongs inPGid l p) : Belongs inPGid table p := by
  induction h with
  | asked hp hpid h => exact .asked (hl hp) hpid h
  | child hp hpid _ h ih => exact .child (hl hp) hpid ih h
  | mate hp hpid _ h ih => exact .mate (hl hp) hpid ih h

theorem Belongs.mem (h : Belongs inPGid table p) : p ∈ table ∧ -1 < p.pid := by
  cases h <;> exact ⟨by assumption, by assumption⟩

/-- A record is taken where its group is in the list, or its parent was taken. -/
def Taken (inPGid : List Int) (l : List LsPidInfo) (p : LsPidInfo) : Prop :=
  p.pgid ∈ (gather inPGid l).pgidList ∨ p.ppid ∈ (gather inPGid l).pidList.map PidInfo.pid

theorem taken_listed (hpid : -1 < p.pid) (h : Taken inPGid l p) (l' : List LsPidInfo) :
    p.pgid ∈ (gather inPGid (l ++ p :: l')).pgidList ∧ p.info ∈ (gather inPGid (l ++ p :: l')).pidList := by
  have hmono := @gather_mono inPGid (l ++ [p]) l'
  rw [append_assoc, singleton_append] at hmono
  refine ⟨hmono.1 ?_, hmono.2 ?_⟩ <;>
    rcases gather_cases inPGid l p with ⟨hg, hs⟩ | ⟨-, -, -, hs⟩ | ⟨hg, hno, -⟩
  · rw [hs]
    exact hg
  · simp [hs]
  · exact absurd h (not_or.mpr ⟨hg, hno hpid⟩)
  · simp [hs, hpid]
  · simp [hs]
  · exact absurd h (not_or.mpr ⟨hg, hno hpid⟩)

theorem belongs_of_taken (hl : l ++ [p] ⊆ table) (hpid : -1 < p.pid) (h : Taken inPGid l p) : Belongs inPGid table p := by
  have hp : p ∈ table := hl (by simp)
  obtain ⟨hpids, found, hgro, -, hf⟩ := @gather_found l table inPGid fun _ hx => hl (mem_append_left _ hx)
  rcases h with hg | hpar
  · rw [hgro, mem_append] at hg
    rcases hg with hg | hg
    · exact .asked hp hpid hg
    · obtain ⟨-, q, hq, hpq⟩ := hf _ hg
      exact .mate hp hpid hq hpq.symm
  · obtain ⟨x, hx, hxpid⟩ := mem_map.mp hpar
    obtain ⟨q, hq, rfl⟩ := hpids x hx
    exact .child hp hpid hq hxpid.symm

open Classical in
/-- A record more, which is kept if it belongs to the job and is taken. -/
theorem gather_pidList (hl : l ++ [p] ⊆ table) : (gather inPGid (l ++ [p])).pidList =
    (gather inPGid l).pidList ++ if Belongs inPGid table p ∧ Taken inPGid l p then [p.info] else [] := by
  rcases gather_cases inPGid l p with ⟨hg, hs⟩ | ⟨-, hpid, hpar, hs⟩ | ⟨hg, hno, hs⟩ <;> rw [hs]
  · have ht : Taken inPGid l p := .inl hg
    by_cases hpid : -1 < p.pid
    · simp [hpid, ht, belongs_of_taken hl hpid ht]
    · have hb : ¬ Belongs inPGid table p := fun hb => hpid hb.mem.2
      simp [hpid, hb]
  · have ht : Taken inPGid l p := .inr hpar
    simp [ht, belongs_of_taken hl hpid ht]
  · have hb : ¬ (Belongs inPGid table p ∧ Taken inPGid l p) := fun ⟨hb, ht⟩ =>
      ht.elim hg (hno hb.mem.2)
    simp [hb]

open Classical in
/-- All of the job is kept exactly if each process of the job is taken when its record is read. -/
theorem gather_pidList_iff (hl : l ⊆ table) : (gather inPGid l).pidList =
    (l.filter fun p => Belongs inPGid table p).map LsPidInfo.info ↔
      ∀ l1 p l2, l = l1 ++ p :: l2 → Belongs inPGid table p → Taken inPGid l1 p := by
  have hle : ∀ l, l ⊆ table → (gather inPGid l).pidList.length ≤ (l.filter fun p => Belongs inPGid table p).length := by
    intro l hl
    induction l using List.reverseRecOn with
    | nil => simp [gather]
    | append_singleton l p ih =>
      have := ih fun _ hx => hl (mem_append_left _ hx)
      rw [gather_pidList hl, filter_append, length_append, length_append]
      by_cases hb : Belongs inPGid table p <;> by_cases ht : Taken inPGid l p <;> simp [hb, ht] <;> omega
  induction l using List.reverseRecOn with
  | nil => simp [gather]
  | append_singleton l p ih =>
    have hl' : l ⊆ table := fun _ hx => hl (mem_append_left _ hx)
    have hsplit : (∀ l1 q l2, l ++ [p] = l1 ++ q :: l2 → Belongs inPGid table q → Taken inPGid l1 q) ↔
        (∀ l1 q l2, l = l1 ++ q :: l2 → Belongs inPGid table q → Taken inPGid l1 q) ∧
          (Belongs inPGid table p → Taken inPGid l p) := by
      refine ⟨fun h => ⟨fun l1 q l2 hq => h l1 q (l2 ++ [p]) (by simp [hq]), h l p [] rfl⟩, fun h l1 q l2 hq => ?_⟩
      rcases eq_nil_or_concat l2 with rfl | ⟨l2, r, rfl⟩
      · obtain ⟨rfl, hpq⟩ := append_inj' hq rfl
        obtain rfl := List.singleton_inj.mp hpq
        exact h.2
      · rw [concat_eq_append, ← cons_append, ← append_assoc] at hq
        exact h.1 l1 q l2 (append_inj' hq rfl).1
    rw [hsplit]
    refine Iff.trans ?_ (and_congr_left' (ih hl'))
    rw [gather_pidList hl, filter_append, map_append]
    by_cases hb : Belongs inPGid table p
    · by_cases ht : Taken inPGid l p
      · simp [hb, ht]
      · refine iff_of_false (fun heq => ?_) (fun h => ht (h.2 hb))
        have hlen := congrArg length heq
        have := hle l hl'
        simp [hb, ht] at hlen
        omega
    · simp [hb]

/-- The groups are listed and discovered as they should be exactly if each process of the job is taken. -/
theorem newGroups_iff : NewGroups inPGid table ↔
    ∀ l1 p l2, table = l1 ++ p :: l2 → Belongs inPGid table p → Taken inPGid l1 p := by
  constructor
  · intro hnew l1
    induction hn : l1.length using Nat.strong_induction_on generalizing l1 with
    | _ n ih =>
      intro p l2 ht hb
      have hl1 : l1 ⊆ table := fun x hx => by rw [ht]; exact mem_append_left _ hx
      -- a process of the job among the records before has been taken
      have hbefore : ∀ q ∈ l1, Belongs inPGid table q →
          q.pgid ∈ (gather inPGid l1).pgidList ∧ q.info ∈ (gather inPGid l1).pidList := by
        intro q hq hbq
        obtain ⟨a, b, rfl⟩ := append_of_mem hq
        exact taken_listed hbq.mem.2 (ih a.length (by simp [← hn]) a rfl q (b ++ p :: l2) (by simp [ht]) hbq) b
      by_cases hg : p.pgid ∈ inPGid
      · obtain ⟨-, found, hgro, -⟩ := @gather_found l1 table inPGid hl1
        exact .inl (by simp [hgro, hg])
      by_cases hfirst : ∀ q ∈ l1, -1 < q.pid → q.pgid ≠ p.pgid
      · obtain ⟨q, hq, hbq, hpid⟩ := hnew l1 p l2 ht hb hg hfirst
        exact .inr (mem_map.mpr ⟨_, (hbefore q hq hbq).2, hpid⟩)
      · push Not at hfirst
        obtain ⟨q, hq, hpid, hpq⟩ := hfirst
        exact .inl (hpq ▸ (hbefore q hq (.mate (hl1 hq) hpid hb hpq)).1)
  · intro hall l1 p l2 ht hb hg hfirst
    have hl1 : l1 ⊆ table := fun x hx => by rw [ht]; exact mem_append_left _ hx
    obtain ⟨hpids, found, hgro, -, hf⟩ := @gather_found l1 l1 inPGid (Subset.refl _)
    rcases hall l1 p l2 ht hb with hmem | hpar
    · rw [hgro, mem_append] at hmem
      obtain ⟨-, q, hq, hpq⟩ := hf _ (hmem.resolve_left hg)
      exact absurd hpq (hfirst q hq.mem.1 hq.mem.2)
    · obtain ⟨x, hx, hxpid⟩ := mem_map.mp hpar
      obtain ⟨q, hq, rfl⟩ := hpids x hx
      exact ⟨q, hq.mem.1, hq.mono hl1, hxpid⟩

/-- The groups asked for that have a process, then those of the descendants, and all processes of these groups. -/
def JobOf (inPGid : List Int) (table : List LsPidInfo) (jru : JRusage) : Prop :=
  ∃ found, jru.pgid = inPGid.filter (active table) ++ found ∧ found.Nodup ∧
    (∀ g, g ∈ found ↔ g ∉ inPGid ∧ ∃ p, Belongs inPGid table p ∧ p.pgid = g) ∧
    jru.pidInfo = (table.filter fun p => p.pgid ∈ jru.pgid ∧ -1 < p.pid).map LsPidInfo.info

open Classical in
theorem filter_belongs {pgid : List Int} (hg : ∀ p ∈ table, p.pgid ∈ pgid ↔ p.pgid ∈ inPGid ∨ ∃ q, Belongs inPGid table q ∧ q.pgid = p.pgid) :
    (table.filter fun p => p.pgid ∈ pgid ∧ -1 < p.pid) = table.filter fun p => Belongs inPGid table p := by
  refine filter_congr fun p hp => ?_
  rw [decide_eq_decide, hg p hp]
  refine ⟨fun ⟨hor, hpid⟩ => ?_, fun hb => ⟨.inr ⟨p, hb, rfl⟩, hb.mem.2⟩⟩
  rcases hor with hask | ⟨q, hq, hpq⟩
  · exact .asked hp hpid hask
  · exact .mate hp hpid hq hpq.symm

theorem mem_filter_active {inPGid : List Int} (hp : p ∈ table) : p.pgid ∈ inPGid.filter (active table) ↔ p.pgid ∈ inPGid := by
  have ha : active table p.pgid = true := any_eq_true.mpr ⟨p, hp, by simp⟩
  simp [ha]

/-- The groups and processes of a job are read exactly if no two groups in a row are inactive and no process comes before
its group is discovered. -/
theorem readPIMInfo_jobOf_iff (jidAsPgid : Bool) (inPGid : List Int) (pinfoList : List LsPidInfo) (jru : JRusage)
    (h : readPIMInfo jidAsPgid inPGid pinfoList = some jru) : JobOf inPGid (byJob jidAsPgid pinfoList) jru ↔
      (inPGid.IsChain fun g g' => active (byJob jidAsPgid pinfoList) g ∨ active (byJob jidAsPgid pinfoList) g') ∧
        NewGroups inPGid (byJob jidAsPgid pinfoList) := by
  classical
  generalize ht : byJob jidAsPgid pinfoList = table
  unfold readPIMInfo at h
  rw [ht] at h
  dsimp only at h
  split at h
  case h_2 => simp at h
  case h_1 s jru' hscan =>
    have hs : s = gather inPGid table := scan_lists hscan
    obtain rfl := Option.some.inj h
    obtain ⟨-, found, hgro, hn, hf⟩ := @gather_found table table inPGid (Subset.refl _)
    have hd : dropInactive inPGid.length 0 inPGid.length (inPGid.map (active table)) s.pgidList =
        leaves (active table) inPGid ++ found := by
      rw [hs, hgro]
      simpa using @dropInactive_eq _ [] inPGid (active table) found le_rfl
    have hall := @gather_pidList_iff table table inPGid (Subset.refl _)
    rw [← newGroups_iff] at hall
    rw [← leaves_eq_filter_iff, ← hall]
    constructor
    · rintro ⟨found', hpgid, -, hf', hpids⟩
      dsimp only at hpgid hpids
      have hleaves : leaves (active table) inPGid = inPGid.filter (active table) := by
        refine leaves_active _ _ fun g hg => ?_
        have hmem : g ∈ inPGid.filter (active table) ++ found' := by
          rw [← hpgid, hd]
          exact mem_append_left _ hg
        rcases mem_append.mp hmem with hmem | hmem
        · exact (mem_filter.mp hmem).2
        · exact absurd (leaves_subset _ _ hg) ((hf' g).mp hmem).1
      refine ⟨hleaves, ?_⟩
      rw [← hs, hpids, filter_belongs fun p hp => ?_]
      rw [hpgid, mem_append, mem_filter_active hp, hf']
      by_cases hg : p.pgid ∈ inPGid <;> simp [hg]
    · rintro ⟨hleaves, hpids⟩
      have hfound : ∀ g, g ∈ found ↔ g ∉ inPGid ∧ ∃ p, Belongs inPGid table p ∧ p.pgid = g := by
        refine fun g => ⟨hf g, ?_⟩
        rintro ⟨hg, p, hb, rfl⟩
        obtain ⟨l1, l2, hl⟩ := append_of_mem hb.mem.1
        have hmem := (taken_listed hb.mem.2 (newGroups_iff.mp (hall.mp hpids) l1 p l2 hl hb) l2).1
        rw [← hl, hgro] at hmem
        exact (mem_append.mp hmem).resolve_left hg
      refine ⟨found, by rw [← hleaves]; exact hd, hn, hfound, ?_⟩
      dsimp only
      rw [hs, hpids, filter_belongs fun p hp => ?_]
      rw [← hs, hd, hleaves, mem_append, mem_filter_active hp, hfound]
      by_cases hg : p.pgid ∈ inPGid <;> simp [hg]

def shell : LsPidInfo := { pid := 10, ppid := 1, pgid := 10 }
def job : LsPidInfo := { pid := 11, ppid := 10, pgid := 11 }

theorem readPIMInfo_job : ∃ jru, readPIMInfo false [7, 10] [shell, job] = some jru ∧
    JobOf [7, 10] (byJob false [shell, job]) jru := by
  refine ⟨_, rfl, (readPIMInfo_jobOf_iff false [7, 10] [shell, job] _ rfl).mpr ⟨by decide, newGroups_iff.mpr ?_⟩⟩
  intro l1 p l2 hl hb
  rcases l1 with - | ⟨q, - | ⟨q', l1⟩⟩
  · obtain ⟨rfl, -⟩ : shell = p ∧ [job] = l2 := by simpa [byJob] using hl
    exact .inl (by decide)
  · obtain ⟨rfl, rfl, -⟩ : shell = q ∧ job = p ∧ [] = l2 := by simpa [byJob] using hl
    exact .inr (by decide)
  · simp [byJob] at hl

theorem readPIMInfo_misses :
    (readPIMInfo false [7, 8, 10] [shell]).map JRusage.pgid = some [8, 10] ∧
      (readPIMInfo false [10] [{ pid := 9, ppid := 1, pgid := 11 }, shell, job]).map
        (fun jru => (jru.pgid, jru.pidInfo.map PidInfo.pid)) = some ([10, 11], [10, 11]) := by
  decide

end OpenLava.Pim

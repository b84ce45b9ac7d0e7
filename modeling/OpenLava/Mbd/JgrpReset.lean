import OpenLava.LexWalk
import OpenLava.Mbd.JgrpCounts

/-!
# Counting the job group tree anew

`resetJgrpCount` sets the counters of a group to zero when `treeLexNext` comes to it, and counts the jobs of a node into
the node and its ancestors. The counters of an array are not set to zero.
-/

namespace OpenLava

open List Ledger LexWalk

/-- The children of a node in the order of the siblings, and its jobs. -/
structure JgrpTree where
  kids : NodeRef → List Nat
  nodup : ∀ p, (kids p).Nodup
  depth : Nat
  height : Height kids depth []
  jobsAt : NodeRef → List JobRef

namespace JgrpTree

variable (T : JgrpTree)

def nodes : List NodeRef := preorder T.kids T.depth []

def treeLexNext (p : NodeRef) : Option NodeRef := lexNext T.kids p

/-- The last counter is behind the `NUM_JGRP_COUNTERS` that are set to zero. -/
def resetNode (p : NodeRef) (s : Mbd) : Mbd :=
  match (s.nodes p).nodeType with
  | .GROUP =>
    let counts := fun c => if c = .outOfBound then (s.nodes p).counts c else 0
    { s with nodes := Function.update s.nodes p { s.nodes p with counts } }
  | .ARRAY | .JOB =>
    (T.jobsAt p).foldl (fun s j => updJgrpCountByJStatus (s.jobs j).jgrpNode none (statusOf s j) s) s

/-- `resetJgrpCount`; `none` if the walk does not end within the fuel. -/
def resetJgrpCount (fuel : Nat) (s : Mbd) : Option Mbd := forEach T.kids T.resetNode fuel (some []) s

def jobs (s : Mbd) : List JobRef := T.nodes.flatMap fun p => if (s.nodes p).nodeType = .GROUP then [] else T.jobsAt p

structure Hangs (s : Mbd) : Prop where
  node : ∀ p ∈ T.nodes, ∀ j ∈ T.jobsAt p, (s.jobs j).jgrpNode = p
  nodup : (T.jobs s).Nodup
  live : s.live = (T.jobs s).toFinset

def rightCount (s : Mbd) (q : NodeRef) (c : JgrpCounter) : Int :=
  total s.live (fun j => nodeShare s.nodes (s.jobs j).jgrpNode (statusOf s j)) (q, c)

def Counted (s : Mbd) : Prop :=
  ∀ q ∈ T.nodes, (s.nodes q).nodeType ≠ .JOB → ∀ c, c ≠ .outOfBound → (s.nodes q).counts c = rightCount s q c

end JgrpTree

structure OnlyCounts (s s' : Mbd) : Prop where
  jobs : s'.jobs = s.jobs
  live : s'.live = s.live
  nodeType : ∀ q, (s'.nodes q).nodeType = (s.nodes q).nodeType

variable {s s' s'' : Mbd} {T : JgrpTree} {p q : NodeRef} {c : JgrpCounter}

theorem OnlyCounts.trans (h : OnlyCounts s s') (h' : OnlyCounts s' s'') : OnlyCounts s s'' :=
  ⟨h'.jobs.trans h.jobs, h'.live.trans h.live, fun q => (h'.nodeType q).trans (h.nodeType q)⟩

theorem OnlyCounts.share (h : OnlyCounts s s') (j : JobRef) (a : NodeRef × JgrpCounter) :
    nodeShare s'.nodes (s'.jobs j).jgrpNode (statusOf s' j) a = nodeShare s.nodes (s.jobs j).jgrpNode (statusOf s j) a := by
  unfold nodeShare statusOf
  rw [h.jobs, h.nodeType]

theorem countJob_spec (s : Mbd) (j : JobRef) :
    OnlyCounts s (updJgrpCountByJStatus (s.jobs j).jgrpNode none (statusOf s j) s) ∧
    ((s.nodes q).nodeType ≠ .JOB →
      ((updJgrpCountByJStatus (s.jobs j).jgrpNode none (statusOf s j) s).nodes q).counts c =
        (s.nodes q).counts c + nodeShare s.nodes (s.jobs j).jgrpNode (statusOf s j) (q, c)) := by
  refine ⟨⟨rfl, rfl, fun q => ?_⟩, fun ht => ?_⟩
  · rw [updJgrpCountByJStatus_nodes]
    split <;> simp
  · rw [updJgrpCountByJStatus_nodes, nodeShare]
    by_cases hq : q <:+ (s.jobs j).jgrpNode
    · rw [if_pos hq, if_pos ⟨ht, hq⟩, count_counts ht]
      simp [jgrpUnit]
    · simp [hq]

theorem countJobs_spec (js : List JobRef) (s : Mbd) :
    OnlyCounts s (js.foldl (fun s j => updJgrpCountByJStatus (s.jobs j).jgrpNode none (statusOf s j) s) s) ∧
    ((s.nodes q).nodeType ≠ .JOB →
      ((js.foldl (fun s j => updJgrpCountByJStatus (s.jobs j).jgrpNode none (statusOf s j) s) s).nodes q).counts c =
        (s.nodes q).counts c +
          (js.map fun j => nodeShare s.nodes (s.jobs j).jgrpNode (statusOf s j) (q, c)).sum) := by
  induction js generalizing s with
  | nil => exact ⟨⟨rfl, rfl, fun _ => rfl⟩, fun _ => by simp⟩
  | cons j js ih =>
    obtain ⟨ho, hcou⟩ := countJob_spec (q := q) (c := c) s j
    obtain ⟨honl, hc⟩ := ih (updJgrpCountByJStatus (s.jobs j).jgrpNode none (statusOf s j) s)
    refine ⟨ho.trans honl, fun ht => ?_⟩
    rw [foldl_cons, hc (by rwa [ho.nodeType]), hcou ht, map_cons, sum_cons]
    simp only [ho.share, Int.add_assoc]

namespace JgrpTree

def added (T : JgrpTree) (s : Mbd) (q : NodeRef) (c : JgrpCounter) (p : NodeRef) : Int :=
  ((if (s.nodes p).nodeType = .GROUP then [] else T.jobsAt p).map fun j =>
    nodeShare s.nodes (s.jobs j).jgrpNode (statusOf s j) (q, c)).sum

theorem added_congr (h : OnlyCounts s s') : T.added s' q c = T.added s q c := by
  funext p
  simp only [added, h.nodeType, h.share]

theorem added_eq_zero (h : T.Hangs s) (hp : p ∈ T.nodes) (hq : ¬q <:+ p) : T.added s q c p = 0 := by
  refine sum_eq_zero fun x hx => ?_
  obtain ⟨j, hj, rfl⟩ := mem_map.mp hx
  have hat : j ∈ T.jobsAt p := by
    split at hj
    · cases hj
    · exact hj
  rw [nodeShare, h.node p hp j hat, if_neg fun ha => hq ha.2]

theorem sum_added (h : T.Hangs s) : (T.nodes.map (T.added s q c)).sum = rightCount s q c := by
  rw [rightCount, total, h.live, sum_toFinset _ h.nodup, jobs, map_flatMap, flatMap_def, sum_flatten, map_map]
  rfl

theorem resetNode_spec (T : JgrpTree) (p : NodeRef) (s : Mbd) : OnlyCounts s (T.resetNode p s) ∧
    ((s.nodes q).nodeType ≠ .JOB → c ≠ .outOfBound →
      ((T.resetNode p s).nodes q).counts c =
        (if p = q ∧ (s.nodes q).nodeType = .GROUP then 0 else (s.nodes q).counts c) + T.added s q c p) := by
  by_cases hg : (s.nodes p).nodeType = .GROUP
  · simp only [resetNode, hg, added, if_true, map_nil, sum_nil]
    refine ⟨⟨rfl, rfl, fun r => ?_⟩, fun _ hc => ?_⟩
    · by_cases hr : r = p
      · simp [hr, hg]
      · simp [hr]
    · by_cases hq : p = q
      · subst hq
        simp [hg, hc]
      · simp [hq, Ne.symm hq]
  · have hb : T.resetNode p s =
        (T.jobsAt p).foldl (fun s j => updJgrpCountByJStatus (s.jobs j).jgrpNode none (statusOf s j) s) s := by
      unfold resetNode
      split
      · contradiction
      · rfl
      · rfl
    have hkeep : ¬(p = q ∧ (s.nodes q).nodeType = .GROUP) := fun ha => hg (ha.1 ▸ ha.2)
    obtain ⟨ho, hc⟩ := countJobs_spec (q := q) (c := c) (T.jobsAt p) s
    rw [hb, if_neg hkeep, added, if_neg hg]
    exact ⟨ho, fun ht _ => hc ht⟩

theorem resetNodes_spec (T : JgrpTree) (ps : List NodeRef) (s : Mbd) :
    OnlyCounts s (ps.foldl (fun s p => T.resetNode p s) s) ∧
    ((s.nodes q).nodeType ≠ .JOB → c ≠ .outOfBound → ((s.nodes q).nodeType = .GROUP → q ∉ ps) →
      ((ps.foldl (fun s p => T.resetNode p s) s).nodes q).counts c =
        (s.nodes q).counts c + (ps.map (T.added s q c)).sum) := by
  induction ps generalizing s with
  | nil => exact ⟨⟨rfl, rfl, fun _ => rfl⟩, fun _ _ _ => by simp⟩
  | cons p ps ih =>
    obtain ⟨ho, hcount⟩ := resetNode_spec (q := q) (c := c) T p s
    obtain ⟨honl, hcou⟩ := ih (T.resetNode p s)
    refine ⟨ho.trans honl, fun ht hc hn => ?_⟩
    have hkeep : ¬(p = q ∧ (s.nodes q).nodeType = .GROUP) := fun ha => hn ha.2 (by simp [ha.1])
    rw [foldl_cons, hcou (by rwa [ho.nodeType]) hc fun hg => ?_, hcount ht hc, if_neg hkeep,
      added_congr ho, map_cons, sum_cons, Int.add_assoc]
    exact not_mem_of_not_mem_cons (hn (by rwa [ho.nodeType] at hg))

/-- The walk ends. A group is set to zero before it is added to, an array is not. -/
theorem resetJgrpCount_spec (h : T.Hangs s) : ∃ s', T.resetJgrpCount T.nodes.length s = some s' ∧ OnlyCounts s s' ∧
    ∀ q ∈ T.nodes, (s.nodes q).nodeType ≠ .JOB → ∀ c, c ≠ .outOfBound → (s'.nodes q).counts c =
    (if (s.nodes q).nodeType = .GROUP then 0 else (s.nodes q).counts c) + rightCount s q c := by
  refine ⟨_, forEach_root T.nodup T.resetNode T.height s, (resetNodes_spec (q := []) (c := .NJOBS) T _ s).1,
    fun q hq htype c hc => ?_⟩
  rw [← sum_added h]
  change ((T.nodes.foldl (fun s p => T.resetNode p s) s).nodes q).counts c = _
  by_cases hg : (s.nodes q).nodeType = .GROUP
  · have ho : T.nodes.Pairwise fun a b => ¬b <:+ a := preorder_pairwise T.nodup T.depth []
    obtain ⟨before, after, hs⟩ := append_of_mem hq
    rw [hs, pairwise_append, pairwise_cons] at ho
    obtain ⟨-, ⟨ha, -⟩, hb⟩ := ho
    have hz : (before.map (T.added s q c)).sum = 0 := by
      refine sum_eq_zero fun x hx => ?_
      obtain ⟨p, hp, rfl⟩ := mem_map.mp hx
      exact added_eq_zero h (by simp [hs, hp]) (hb p hp q (by simp))
    have hn : T.added s q c q = 0 := by simp [added, hg]
    have ho := (resetNodes_spec (q := q) (c := c) T before s).1
    obtain ⟨ho', hcou⟩ := resetNode_spec (q := q) (c := c) T q (before.foldl (fun s p => T.resetNode p s) s)
    have ht := ho.trans ho'
    rw [if_pos hg, hs, foldl_append, foldl_cons,
      (resetNodes_spec T after _).2 (by rwa [ht.nodeType]) hc fun _ hmem => ha q hmem (suffix_refl q),
      hcou (by rwa [ho.nodeType]) hc, if_pos ⟨rfl, by rwa [ho.nodeType]⟩, added_congr ho,
      added_congr ht, hn, map_append, map_cons, sum_append, sum_cons, hz, hn]
    simp
  · rw [if_neg hg, (resetNodes_spec T T.nodes s).2 htype hc fun h => absurd h hg]

def ArraysZero (T : JgrpTree) (s : Mbd) : Prop :=
  ∀ q ∈ T.nodes, (s.nodes q).nodeType = .ARRAY → ∀ c, c ≠ .outOfBound → (s.nodes q).counts c = 0

/-- The counters of groups and arrays are those of the other state. -/
def SameCounts (T : JgrpTree) (s s' : Mbd) : Prop :=
  ∀ q ∈ T.nodes, (s.nodes q).nodeType ≠ .JOB → ∀ c, c ≠ .outOfBound → (s'.nodes q).counts c = (s.nodes q).counts c

/-- Counting anew makes the counters right, and keeps right ones, iff those of the arrays were
zero. -/
theorem resetJgrpCount_counted_iff (T : JgrpTree) (s : Mbd) (h : T.Hangs s) :
    ∃ s', T.resetJgrpCount T.nodes.length s = some s' ∧
      (T.Counted s' ↔ T.ArraysZero s) ∧ (T.Counted s → (T.SameCounts s s' ↔ T.ArraysZero s)) := by
  obtain ⟨s', hrun, ho, hcou⟩ := resetJgrpCount_spec h
  have hr : ∀ q c, rightCount s' q c = rightCount s q c := fun q c => by
    simp only [rightCount, total, ho.live, ho.share]
  have ha : ∀ q ∈ T.nodes, (s.nodes q).nodeType = .ARRAY → ∀ c, c ≠ .outOfBound →
      (s'.nodes q).counts c = (s.nodes q).counts c + rightCount s q c := fun q hq ht c hc => by
    rw [hcou q hq (by simp [ht]) c hc, if_neg (by simp [ht])]
  have hg : ∀ q ∈ T.nodes, (s.nodes q).nodeType = .GROUP → ∀ c, c ≠ .outOfBound →
      (s'.nodes q).counts c = rightCount s q c := fun q hq ht c hc => by
    rw [hcou q hq (by simp [ht]) c hc, if_pos ht, zero_add]
  refine ⟨s', hrun, ⟨fun hs' q hq ht c hc => ?_, fun hz q hq ht c hc => ?_⟩, fun hs =>
    ⟨fun hsame q hq ht c hc => ?_, fun hz q hq ht c hc => ?_⟩⟩
  · have hnew := hs' q hq (by simp [ho.nodeType, ht]) c hc
    rw [ha q hq ht c hc, hr] at hnew
    omega
  · rw [hr]
    rw [ho.nodeType] at ht
    cases hn : (s.nodes q).nodeType with
    | JOB => contradiction
    | ARRAY => rw [ha q hq hn c hc, hz q hq hn c hc, zero_add]
    | GROUP => exact hg q hq hn c hc
  · have hold := hs q hq (by simp [ht]) c hc
    have hnew := hsame q hq (by simp [ht]) c hc
    rw [ha q hq ht c hc] at hnew
    omega
  · have hold := hs q hq ht c hc
    cases hn : (s.nodes q).nodeType with
    | JOB => contradiction
    | ARRAY => rw [ha q hq hn c hc, ← hold, hz q hq hn c hc, zero_add]
    | GROUP => rw [hg q hq hn c hc, hold]

def oneNode : JgrpTree where
  kids p := if p = [] then [0] else []
  nodup p := by split <;> simp
  depth := 1
  height := by simp [Height]
  jobsAt p := if p = [0] then [0] else []

/-- The pending job of `oneNode`, with a node of the given type; both have counted `n` jobs. -/
def onePending (nodeType : NodeType) (n : Int) : Mbd :=
  { Mbd.blank with
    jobs := fun _ => { initJData 0 0 { queue := 0 } with jgrpNode := [0] }
    live := {0}
    nodes := fun p =>
      { nodeType := if p = [0] then nodeType else .GROUP
        counts := fun c => if c = .NJOBS ∨ c = .PEND then n else 0 } }

theorem resetJgrpCount_counted_job : oneNode.ArraysZero (onePending .JOB 5) ∧
    ∃ s', oneNode.resetJgrpCount oneNode.nodes.length (onePending .JOB 5) = some s' ∧ oneNode.Counted s' := by
  have hz : oneNode.ArraysZero (onePending .JOB 5) := by
    intro q hq ht
    fin_cases hq <;> cases ht
  have ha : oneNode.Hangs (onePending .JOB 5) := ⟨by decide, by decide, by decide⟩
  obtain ⟨s', hr, hi, -⟩ := resetJgrpCount_counted_iff oneNode (onePending .JOB 5) ha
  exact ⟨hz, s', hr, hi.mpr hz⟩

/-- An array with one job, which it has counted, has counted two afterwards. -/
theorem resetJgrpCount_not_counted : oneNode.Hangs (onePending .ARRAY 1) ∧ oneNode.Counted (onePending .ARRAY 1) ∧
    ∃ s', oneNode.resetJgrpCount oneNode.nodes.length (onePending .ARRAY 1) = some s' ∧
      (s'.nodes [0]).counts .NJOBS = 2 ∧ ¬oneNode.Counted s' := by
  have ha : oneNode.Hangs (onePending .ARRAY 1) := ⟨by decide, by decide, by decide⟩
  refine ⟨ha, ?_, _, rfl, by decide, fun h => ?_⟩
  · intro q hq _ c _
    fin_cases hq <;> cases c <;> decide
  · exact absurd (h [0] (by decide) (by decide) .NJOBS (by decide)) (by decide)

end JgrpTree

end OpenLava

import OpenLava.Lim.Master

/-!
# The LIMs of a cluster

The LIMs exchange announcements. What was sent once may arrive at any later time, more than once or never.
-/

namespace OpenLava.Lim

open Function List

/-- What the LIMs share. No two hosts have one name or one number. -/
structure Cluster where
  clName : List Char
  hostList : List HostNode
  names : ∀ g ∈ hostList, ∀ h ∈ hostList, equalHost_ g.hostName h.hostName = true → g = h
  numbers : ∀ g ∈ hostList, ∀ h ∈ hostList, g.hostNo = h.hostNo → g = h
  (hostInactivityLimit masterInactivityLimit retryLimit : Nat)
  computeOnly : HostNode → Bool

def Cluster.config (c : Cluster) (h : HostNode) (hmem : h ∈ c.hostList) : Config where
  clName := c.clName
  hostList := c.hostList
  myHostPtr := h
  myHostPtr_mem := hmem
  hostInactivityLimit := c.hostInactivityLimit
  masterInactivityLimit := c.masterInactivityLimit
  retryLimit := c.retryLimit
  computeOnly := c.computeOnly h

structure Message where
  (sender receiver master : HostNode)
  deriving DecidableEq

structure World where
  lims : HostNode → Option State -- The LIMs that run.
  sent : List Message -- Every announcement that was ever sent.
  heard : HostNode → List HostNode -- The senders of the announcements a LIM has processed since it became master.

def World.init : World := ⟨fun _ => none, [], fun _ => []⟩

def World.IsMaster (w : World) (h : HostNode) : Prop := ∃ s, w.lims h = some s ∧ s.masterMe = true

inductive ClusterOp where
  | start (h : HostNode)
  | tick (h : HostNode) (connect : Connect)
  /-- The periodic announcements of a master, and those it is asked for. -/
  | announce (h : HostNode) (receivers : List HostNode)
  | deliver (m : Message)

variable {h : HostNode} {s : State} {c : Cluster} {w : World}

/-- The LIM on `h` has run a handler; what it has heard counts from when it becomes master. -/
def World.after (w : World) (h : HostNode) (wasMaster : Bool) (heard : List HostNode) : Handled → World
  | none => { w with lims := update w.lims h none, heard := update w.heard h [] }
  | some (s, out) =>
    { lims := update w.lims h (some s)
      sent := w.sent ++ out.map fun o => ⟨h, o.receiver, o.master⟩
      heard := update w.heard h (if s.masterMe ∧ wasMaster = false then [] else heard) }

def clusterStep (c : Cluster) : ClusterOp → World → World
  | .start h, w => if hmem : h ∈ c.hostList then w.after h false [] (start (c.config h hmem)) else w
  | .tick h connect, w =>
    match w.lims h with
    | none => w
    | some s =>
      if hmem : h ∈ c.hostList then w.after h s.masterMe (w.heard h) (sendLoad (c.config h hmem) connect s) else w
  | .announce h receivers, w =>
    match w.lims h with
    | none => w
    | some s =>
      if s.masterMe then w.after h true (w.heard h) (s.masterPtr.map fun m => (s, receivers.map fun r => ⟨r, m⟩)) else w
  | .deliver m, w =>
    match w.lims m.receiver with
    | none => w
    | some s =>
      if hmem : m.receiver ∈ c.hostList ∧ m ∈ w.sent then
        w.after m.receiver s.masterMe (m.sender :: w.heard m.receiver)
          (masterRegister (c.config m.receiver hmem.1) ⟨c.clName, m.master.hostName⟩ s)
      else w

theorem equalHost_self (name : List Char) : equalHost_ name name = true := by
  simp [equalHost_, boundary]

theorem findHostbyList_of_mem (c : Cluster) (hmem : h ∈ c.hostList) :
    findHostbyList c.hostList h.hostName = some h := by
  obtain ⟨g, hg⟩ : ∃ g, findHostbyList c.hostList h.hostName = some g :=
    Option.isSome_iff_exists.mp (List.find?_isSome.mpr ⟨h, hmem, equalHost_self _⟩)
  have he : equalHost_ g.hostName h.hostName = true := by simpa using List.find?_some hg
  rw [hg, c.names g (mem_of_find?_eq_some hg) h hmem he]

theorem masterRegister_lower (c : Cluster) (hmem : h ∈ c.hostList) (hm : m ∈ c.hostList)
    (hlt : m.hostNo < h.hostNo) (hs : Sound (c.config h hmem) s) (hme : s.masterMe = true) :
    masterRegister (c.config h hmem) ⟨c.clName, m.hostName⟩ s = some (giveIn m s, []) := by
  obtain ⟨hkno, hptr⟩ := hs.me hme
  have hne : h ≠ m := by rintro rfl; exact lt_irrefl _ hlt
  have hname : ¬ equalHost_ h.hostName m.hostName = true := fun heq => hne (c.names h hmem m hm heq)
  have hptr' : s.masterPtr = some h := hptr
  have hf := findHostbyList_of_mem c hm
  simp [masterRegister, Cluster.config, hname, hf, hkno, hptr', hne, hlt, hlt.le.not_gt]

/-- What holds of the LIMs, the announcements and what the masters have heard. -/
structure Inv (c : Cluster) (w : World) : Prop where
  sound : ∀ h s, w.lims h = some s → ∃ hmem, Sound (c.config h hmem) s
  sent : ∀ m ∈ w.sent, m.master ∈ c.hostList ∧ m.master.hostNo ≤ m.sender.hostNo
  heard : ∀ h, w.IsMaster h → ∀ g ∈ w.heard h, h.hostNo ≤ g.hostNo

theorem Inv.after (hi : Inv c w) (hmem : h ∈ c.hostList) {heard : List HostNode}
    (hsou : ∀ s out, ha = some (s, out) → Sound (c.config h hmem) s ∧ ∀ o ∈ out, s.masterPtr = some o.master)
    (hh : ∀ s out, ha = some (s, out) → s.masterMe = true → wasMaster = true →
      ∀ g ∈ heard, h.hostNo ≤ g.hostNo) : Inv c (w.after h wasMaster heard ha) := by
  cases ha with
  | none =>
    refine ⟨?_, hi.sent, ?_⟩
    · intro g s hg
      by_cases heq : g = h
      · subst heq
        simp [World.after] at hg
      · exact hi.sound g s (by simpa [World.after, heq] using hg)
    · rintro g ⟨s, hs, hme⟩ k hk
      by_cases heq : g = h
      · subst heq
        simp [World.after] at hs
      · simp only [World.after, update_of_ne heq] at hs hk
        exact hi.heard g ⟨s, hs, hme⟩ k hk
  | some p =>
    obtain ⟨s, out⟩ := p
    obtain ⟨hs, hout⟩ := hsou s out rfl
    refine ⟨?_, ?_, ?_⟩
    · intro g t hg
      by_cases heq : g = h
      · subst heq
        simp only [World.after, update_self, Option.some.injEq] at hg
        exact ⟨hmem, hg ▸ hs⟩
      · exact hi.sound g t (by simpa [World.after, heq] using hg)
    · intro m hm
      rcases mem_append.mp hm with hm | hm
      · exact hi.sent m hm
      · obtain ⟨o, ho, rfl⟩ := mem_map.mp hm
        exact hs.master o.master (hout o ho)
    · rintro g ⟨t, ht, hme⟩ k hk
      by_cases heq : g = h
      · subst heq
        simp only [World.after, update_self, Option.some.injEq] at ht hk
        subst ht
        split at hk
        · simp at hk
        · next hb =>
          have hw : wasMaster = true := by
            by_contra hw
            exact hb ⟨hme, by simpa using hw⟩
          exact hh s out rfl hme hw k hk
      · simp only [World.after, update_of_ne heq] at ht hk
        exact hi.heard g ⟨t, ht, hme⟩ k hk

theorem Inv.step (op : ClusterOp) (w : World) (hi : Inv c w) : Inv c (clusterStep c op w) := by
  cases op with
  | start h =>
    simp only [clusterStep]
    split
    · next hmem =>
      obtain ⟨s, out, hs, hsou, -⟩ := start_eq (c.config h hmem)
      refine hi.after hmem ?_ (by simp)
      intro t out' heq
      obtain ⟨rfl, rfl⟩ : t = s ∧ out' = out := by simpa [hs, eq_comm] using heq
      exact ⟨hsou, start_out hs⟩
    · exact hi
  | tick h connect =>
    simp only [clusterStep]
    split
    · exact hi
    · next s hs =>
      split
      · next hmem =>
        refine hi.after hmem ?_ ?_
        · intro t out heq
          obtain ⟨hc, hout⟩ := sendLoad_change heq
          obtain ⟨_, hsou⟩ := hi.sound h s hs
          exact ⟨hc.sound hsou, hout⟩
        · intro t out _ _ hw
          exact hi.heard h ⟨s, hs, hw⟩
      · exact hi
  | announce h receivers =>
    simp only [clusterStep]
    split
    · exact hi
    · next s hs =>
      split
      · next hme =>
        obtain ⟨hmem, hsou⟩ := hi.sound h s hs
        refine hi.after hmem ?_ ?_
        · intro t out heq
          simp only [Option.map_eq_some_iff, Prod.mk.injEq] at heq
          obtain ⟨m, hm, rfl, rfl⟩ := heq
          refine ⟨hsou, ?_⟩
          intro o ho
          obtain ⟨r, -, rfl⟩ := mem_map.mp ho
          exact hm
        · intro t out _ _ _
          exact hi.heard h ⟨s, hs, hme⟩
      · exact hi
  | deliver m =>
    simp only [clusterStep]
    split
    · exact hi
    · next s hs =>
      split
      · next hmem =>
        obtain ⟨_, hsou⟩ := hi.sound m.receiver s hs
        refine hi.after hmem.1 ?_ ?_
        · intro t out heq
          obtain ⟨hc, hout⟩ := masterRegister_change heq
          exact ⟨hc.sound hsou, hout⟩
        · -- a master that stays master was not told by a lower numbered host
          intro t out heq hme hw g hg
          rcases mem_cons.mp hg with rfl | hg
          · by_contra hlt
            obtain ⟨hmas, hle⟩ := hi.sent m hmem.2
            rw [masterRegister_lower c hmem.1 hmas (by omega) hsou hw] at heq
            cases heq
            simp [giveIn] at hme
          · exact hi.heard m.receiver ⟨s, hs, hw⟩ g hg
      · exact hi

theorem inv_init (c : Cluster) : Inv c .init :=
  ⟨by simp [World.init], by simp [World.init], by simp [World.init]⟩

/-- A LIM that stops being master follows a lower numbered host, if any. -/
def GivesInLower (c : Cluster) (op : ClusterOp) (w : World) : Prop :=
  ∀ h, w.IsMaster h → ∀ s', (clusterStep c op w).lims h = some s' → s'.masterMe = false →
    ∀ g, s'.masterPtr = some g → g.hostNo < h.hostNo

theorem Change.givesInLower (hc : Change cfg op s s') (hme : s.masterMe = true) (hme' : s'.masterMe = false)
    (hg : s'.masterPtr = some g) : g.hostNo < cfg.myHostPtr.hostNo := by
  cases hc with
  | waits count => simp [hme] at hme'
  | givesIn hPtr hmem hlt =>
    cases hg
    exact hlt
  | takesOver prev hf => simp [hme] at hf
  | forgets count hf => simp [hme] at hf
  | recovers hf => simp [hme] at hf
  | recalls hPtr hf => simp [hme] at hf
  | reverts m hop hf => simp [hme] at hf

theorem World.after_lims (w : World) (h g : HostNode) (wasMaster : Bool) (heard : List HostNode) (ha : Handled) :
    (w.after h wasMaster heard ha).lims g = if g = h then ha.map Prod.fst else w.lims g := by
  cases ha <;> simp [World.after, update_apply]

theorem World.after_cases {heard : List HostNode} (hs : (w.after h wasMaster heard ha).lims g = some s) :
    g = h ∧ (∃ out, ha = some (s, out)) ∨ w.lims g = some s := by
  rw [World.after_lims] at hs
  split at hs
  · next heq =>
    obtain ⟨⟨t, out⟩, hh, rfl⟩ := Option.map_eq_some_iff.mp hs
    exact .inl ⟨heq, out, hh⟩
  · exact .inr hs

theorem clusterStep_lims (hi : Inv c w) (hs : w.lims h = some s) (hs' : (clusterStep c op w).lims h = some s') :
    ∃ hmem, (∃ op', Change (c.config h hmem) op' s s') ∨ ∃ out, start (c.config h hmem) = some (s', out) := by
  obtain ⟨hmem, -⟩ := hi.sound h s hs
  refine ⟨hmem, ?_⟩
  have hsame : w.lims h = some s' → (∃ op', Change (c.config h hmem) op' s s') ∨
      ∃ out, start (c.config h hmem) = some (s', out) := by
    intro heq
    obtain rfl : s = s' := by simpa [hs] using heq
    exact Or.inl ⟨.tick .failed, .same _ _ s⟩
  cases op with
  | start g =>
    simp only [clusterStep] at hs'
    split at hs'
    · rcases World.after_cases hs' with ⟨rfl, out, hsta⟩ | hs'
      · exact Or.inr ⟨out, hsta⟩
      · exact hsame hs'
    · exact hsame hs'
  | tick g connect =>
    simp only [clusterStep] at hs'
    split at hs'
    · exact hsame hs'
    next t ht =>
      split at hs'
      · rcases World.after_cases hs' with ⟨rfl, out, hl⟩ | hs'
        · obtain rfl : s = t := by simpa [hs] using ht
          exact Or.inl ⟨_, (sendLoad_change hl).1⟩
        · exact hsame hs'
      · exact hsame hs'
  | announce g receivers =>
    simp only [clusterStep] at hs'
    split at hs'
    · exact hsame hs'
    next t ht =>
      split at hs'
      · rw [World.after_lims] at hs'
        split at hs'
        · next heq =>
          subst heq
          cases hptr : t.masterPtr with
          | none => simp [hptr] at hs'
          | some m => exact hsame (by simpa [hptr, ht] using hs')
        · exact hsame hs'
      · exact hsame hs'
  | deliver m =>
    simp only [clusterStep] at hs'
    split at hs'
    · exact hsame hs'
    next t ht =>
      split at hs'
      · rcases World.after_cases hs' with ⟨rfl, out, hr⟩ | hs'
        · obtain rfl : s = t := by simpa [hs] using ht
          exact Or.inl ⟨_, (masterRegister_change hr).1⟩
        · exact hsame hs'
      · exact hsame hs'

theorem Inv.givesInLower (op : ClusterOp) (w : World) (hi : Inv c w) : GivesInLower c op w := by
  rintro h ⟨s, hs, hme⟩ s' hs' hme' g hg
  obtain ⟨hmem, ⟨op', hc⟩ | ⟨out, hsta⟩⟩ := clusterStep_lims hi hs hs'
  · exact hc.givesInLower hme hme' hg
  · unfold start at hsta
    dsimp only at hsta
    split at hsta
    · rw [(initNewMaster_eq hsta).1] at hme'
      simp at hme'
    · cases hsta
      simp at hg

/-- Among masters that have heard of each other there is one at most. -/
theorem one_master (c : Cluster) (ops : List ClusterOp) : let w := Run.run (clusterStep c) ops .init
    ((∀ a b, w.IsMaster a → w.IsMaster b → a.hostNo < b.hostNo → a ∈ w.heard b) →
        ∀ a b, w.IsMaster a → w.IsMaster b → a = b) ∧
      Run.Meets (clusterStep c) (GivesInLower c) ops .init := by
  intro w
  have hi : Inv c w := Run.run_preserves (I := Inv c) Inv.step ops .init (inv_init c)
  refine ⟨?_, Run.meets_of_invariant Inv.step Inv.givesInLower ops .init (inv_init c)⟩
  intro hh a b ha hb
  have hmem : ∀ h, w.IsMaster h → h ∈ c.hostList := by
    rintro h ⟨s, hs, -⟩
    exact (hi.sound h s hs).1
  rcases lt_trichotomy a.hostNo b.hostNo with hlt | heq | hlt
  · have := hi.heard b hb a (hh a b ha hb hlt)
    omega
  · exact c.numbers a (hmem a ha) b (hmem b hb) heq
  · have := hi.heard a ha b (hh b a hb ha hlt)
    omega

end OpenLava.Lim

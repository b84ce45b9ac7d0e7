import Mathlib.Tactic
import OpenLava.Run

/-!
# Which LIM is master

One LIM, with the four variables its mastership is spread over. Pointers to hosts are the hosts; a step that follows a
null pointer is the end of the LIM.
-/

namespace OpenLava.Lim

structure HostNode where
  hostName : List Char
  hostNo : Nat
  deriving DecidableEq

def boundary : List Char → Bool
  | [] => true
  | c :: _ => c = '.'

/-- Names are compared up to the shorter one, which may leave out domains. -/
def equalHost_ (host1 host2 : List Char) : Bool :=
  let len := min host1.length host2.length
  (host1.take len).map Char.toLower = (host2.take len).map Char.toLower ∧ boundary (host1.drop len) ∧
    boundary (host2.drop len)

def findHostbyList (hList : List HostNode) (hostName : List Char) : Option HostNode :=
  hList.find? fun hPtr => equalHost_ hPtr.hostName hostName

structure Config where
  clName : List Char
  hostList : List HostNode
  myHostPtr : HostNode
  myHostPtr_mem : myHostPtr ∈ hostList
  (hostInactivityLimit masterInactivityLimit retryLimit : Nat)
  computeOnly : Bool -- `LIM_COMPUTE_ONLY`: no candidate.

structure State where
  masterKnown : Bool
  (masterPtr prevMasterPtr : Option HostNode)
  masterInactivityCount : Nat
  masterMe : Bool
  deriving DecidableEq

structure MasterReg where
  (clName hostName : List Char)

structure Outgoing where
  (receiver master : HostNode)

abbrev Handled := Option (State × List Outgoing)

/-- `announceMasterToHost` names the master, and follows the pointer to it. -/
def announceMasterToHost (hPtr : HostNode) (s : State) : Handled :=
  s.masterPtr.map fun m => (s, [⟨hPtr, m⟩])

/-- `announceMaster` to all. -/
def announceMaster (cfg : Config) (s : State) : Handled :=
  s.masterPtr.map fun m => (s, (cfg.hostList.filter (· ≠ cfg.myHostPtr)).map fun hPtr => ⟨hPtr, m⟩)

/-- The new master of `masterRegister`. -/
def giveIn (hPtr : HostNode) (s : State) : State :=
  { masterKnown := true, masterPtr := some hPtr, prevMasterPtr := s.masterPtr, masterInactivityCount := 0,
    masterMe := false }

def masterRegister (cfg : Config) (masterReg : MasterReg) (s : State) : Handled :=
  if masterReg.clName ≠ cfg.clName then some (s, [])
  else if equalHost_ cfg.myHostPtr.hostName masterReg.hostName then some (s, [])
  else
    match findHostbyList cfg.hostList masterReg.hostName with
    | none => some (s, [])
    | some hPtr =>
      if s.masterKnown ∧ s.masterPtr = some hPtr then some ({ s with masterInactivityCount := 0 }, [])
      else if s.masterKnown ∧ hPtr.hostNo < cfg.myHostPtr.hostNo then
        -- the second guard looks at the number of the master, and what it lets pass is taken by the third
        match s.masterPtr with
        | none => none
        | some m =>
          if m.hostNo < hPtr.hostNo ∧ s.masterInactivityCount ≤ cfg.hostInactivityLimit then
            announceMasterToHost hPtr s
          else some (giveIn hPtr s, [])
      else if hPtr.hostNo < cfg.myHostPtr.hostNo then some (giveIn hPtr s, [])
      else if s.masterKnown ∧ s.masterInactivityCount < cfg.hostInactivityLimit then announceMasterToHost hPtr s
      else some (s, [])

def initNewMaster (cfg : Config) (s : State) : Handled :=
  announceMaster cfg { masterKnown := true, masterPtr := some cfg.myHostPtr, prevMasterPtr := s.masterPtr,
                       masterInactivityCount := 0, masterMe := true }

inductive Connect where
  | done
  | noSocket
  | failed
  deriving DecidableEq

def probeMasterTcp (cfg : Config) (connect : Connect) (s : State) : Int :=
  match s.masterPtr <|> s.prevMasterPtr with
  | none => -1
  | some hPtr =>
    if hPtr = cfg.myHostPtr then -1
    else
      match connect with
      | .done => 0
      | .noSocket => -2
      | .failed => -1

def forgetMaster (s : State) : State :=
  { s with masterKnown := false, prevMasterPtr := s.masterPtr, masterPtr := none }

/-- A candidate whose turn it is takes over, unless the last master answers. -/
def takeOver (cfg : Config) (connect : Connect) (s : State) : Handled :=
  if cfg.computeOnly = false ∧
      cfg.hostInactivityLimit + cfg.myHostPtr.hostNo * cfg.masterInactivityLimit < s.masterInactivityCount then
    if probeMasterTcp cfg connect s < 0 then initNewMaster cfg s
    else some ({ s with masterInactivityCount := 0, masterKnown := true, masterPtr := s.prevMasterPtr }, [])
  else some (s, [])

/-- `sendLoad` up to the load itself. -/
def sendLoad (cfg : Config) (connect : Connect) (s : State) : Handled :=
  if s.masterMe then some (s, [])
  else
    let s := { s with masterInactivityCount := s.masterInactivityCount + 1 }
    if s.masterInactivityCount ≤ cfg.hostInactivityLimit then some (s, [])
    else if s.masterKnown then
      -- both the log line and the status of the master follow the pointer
      if s.masterPtr = none then none
      else if s.masterInactivityCount ≤ cfg.hostInactivityLimit + cfg.retryLimit then takeOver cfg connect s
      else takeOver cfg connect (forgetMaster s)
    else takeOver cfg connect s

def start (cfg : Config) : Handled :=
  let s : State := { masterKnown := false, masterPtr := none, prevMasterPtr := none, masterInactivityCount := 0,
                     masterMe := cfg.myHostPtr.hostNo = 0 }
  if s.masterMe then initNewMaster cfg s else some (s, [])

inductive Op where
  | register (masterReg : MasterReg)
  | tick (connect : Connect)

def handle (cfg : Config) : Op → State → Handled
  | .register masterReg => masterRegister cfg masterReg
  | .tick connect => sendLoad cfg connect

def step (cfg : Config) (op : Op) (lim : Option State) : Option State :=
  lim.bind fun s => (handle cfg op s).map Prod.fst

inductive Change (cfg : Config) (op : Op) (s : State) : State → Prop
  | waits (count : Nat) : Change cfg op s { s with masterInactivityCount := count }
  | givesIn (hPtr : HostNode) (hmem : hPtr ∈ cfg.hostList) (hlt : hPtr.hostNo < cfg.myHostPtr.hostNo) :
      Change cfg op s (giveIn hPtr s)
  | takesOver (prev : Option HostNode) (hme : s.masterMe = false) (hprev : prev = s.masterPtr ∨ prev = none) :
      Change cfg op s ⟨true, some cfg.myHostPtr, prev, 0, true⟩
  | forgets (count : Nat) (hme : s.masterMe = false) (hknown : s.masterKnown = true) :
      Change cfg op s { forgetMaster s with masterInactivityCount := count }
  /-- The master that was known, silent and forgotten answers the probe. -/
  | recovers (hme : s.masterMe = false) (hknown : s.masterKnown = true) :
      Change cfg op s { s with masterInactivityCount := 0, prevMasterPtr := s.masterPtr }
  /-- The last master answers. -/
  | recalls (hPtr : HostNode) (hme : s.masterMe = false) (hknown : s.masterKnown = false)
      (hlast : (s.masterPtr <|> s.prevMasterPtr) = some hPtr) (hother : hPtr ≠ cfg.myHostPtr) :
      Change cfg op s { s with masterInactivityCount := 0, masterKnown := true, masterPtr := s.prevMasterPtr }
  /-- The master is still known and answers, and the one before it is put in its place. -/
  | reverts (m : HostNode) (hop : op = .tick .done) (hme : s.masterMe = false) (hknown : s.masterKnown = true)
      (hm : s.masterPtr = some m) (hother : m ≠ cfg.myHostPtr) (hcandidate : cfg.computeOnly = false)
      (hturn : cfg.hostInactivityLimit + cfg.myHostPtr.hostNo * cfg.masterInactivityLimit <
        s.masterInactivityCount + 1)
      (hretry : s.masterInactivityCount + 1 ≤ cfg.hostInactivityLimit + cfg.retryLimit) :
      Change cfg op s { s with masterInactivityCount := 0, masterPtr := s.prevMasterPtr }

variable {cfg : Config} {s s' : State} {out : List Outgoing}

theorem announceMasterToHost_eq (h : announceMasterToHost hPtr s = some (s', out)) :
    s' = s ∧ ∀ o ∈ out, s'.masterPtr = some o.master := by
  simp only [announceMasterToHost, Option.map_eq_some_iff, Prod.mk.injEq] at h
  obtain ⟨m, hm, rfl, rfl⟩ := h
  simp [hm]

theorem announceMaster_eq (h : announceMaster cfg s = some (s', out)) :
    s' = s ∧ ∀ o ∈ out, s'.masterPtr = some o.master := by
  simp only [announceMaster, Option.map_eq_some_iff, Prod.mk.injEq] at h
  obtain ⟨m, hm, rfl, rfl⟩ := h
  refine ⟨rfl, ?_⟩
  intro o ho
  obtain ⟨hPtr, -, rfl⟩ := List.mem_map.mp ho
  exact hm

theorem Change.same (cfg : Config) (op : Op) (s : State) : Change cfg op s s := .waits s.masterInactivityCount

theorem masterRegister_change (h : masterRegister cfg masterReg s = some (s', out)) :
    Change cfg (.register masterReg) s s' ∧ ∀ o ∈ out, s'.masterPtr = some o.master := by
  have hq : ∀ t, some (t, ([] : List Outgoing)) = some (s', out) → Change cfg (.register masterReg) s t →
      Change cfg (.register masterReg) s s' ∧ ∀ o ∈ out, s'.masterPtr = some o.master := by
    rintro t ⟨⟩ ht
    exact ⟨ht, by simp⟩
  have hr : ∀ hPtr, announceMasterToHost hPtr s = some (s', out) →
      Change cfg (.register masterReg) s s' ∧ ∀ o ∈ out, s'.masterPtr = some o.master := by
    intro hPtr heq
    obtain ⟨rfl, ho⟩ := announceMasterToHost_eq heq
    exact ⟨.same cfg _ s', ho⟩
  unfold masterRegister at h
  split at h
  · exact hq s h (.same cfg _ s)
  split at h
  · exact hq s h (.same cfg _ s)
  split at h
  · exact hq s h (.same cfg _ s)
  next hPtr hf =>
    have hmem : hPtr ∈ cfg.hostList := List.mem_of_find?_eq_some hf
    split at h
    · exact hq _ h (.waits 0)
    split at h
    · next hl =>
      split at h
      · cases h
      · split at h
        · exact hr hPtr h
        · exact hq _ h (.givesIn hPtr hmem hl.2)
    split at h
    · next hlt => exact hq _ h (.givesIn hPtr hmem hlt)
    split at h
    · exact hr hPtr h
    · exact hq s h (.same cfg _ s)

theorem initNewMaster_eq (h : initNewMaster cfg s = some (s', out)) :
    s' = ⟨true, some cfg.myHostPtr, s.masterPtr, 0, true⟩ ∧ ∀ o ∈ out, s'.masterPtr = some o.master := by
  obtain ⟨rfl, ho⟩ := announceMaster_eq h
  exact ⟨rfl, ho⟩

theorem probeMasterTcp_nonneg (h : ¬ probeMasterTcp cfg connect s < 0) :
    ∃ hPtr, connect = .done ∧ (s.masterPtr <|> s.prevMasterPtr) = some hPtr ∧ hPtr ≠ cfg.myHostPtr := by
  unfold probeMasterTcp at h
  split at h
  · exact absurd (by decide) h
  · next hPtr hlast =>
    split at h
    · exact absurd (by decide) h
    · next hne =>
      cases connect with
      | done => exact ⟨hPtr, rfl, hlast, hne⟩
      | noSocket => exact absurd (by decide) h
      | failed => exact absurd (by decide) h

theorem takeOver_cases (h : takeOver cfg connect s = some (s', out)) :
    (s' = s ∨ s' = ⟨true, some cfg.myHostPtr, s.masterPtr, 0, true⟩ ∨ cfg.computeOnly = false ∧
        cfg.hostInactivityLimit + cfg.myHostPtr.hostNo * cfg.masterInactivityLimit < s.masterInactivityCount ∧
        (∃ hPtr, connect = .done ∧ (s.masterPtr <|> s.prevMasterPtr) = some hPtr ∧ hPtr ≠ cfg.myHostPtr) ∧
        s' = { s with masterInactivityCount := 0, masterKnown := true, masterPtr := s.prevMasterPtr }) ∧
      ∀ o ∈ out, s'.masterPtr = some o.master := by
  unfold takeOver at h
  split at h
  · next hturn =>
    split at h
    · obtain ⟨rfl, ho⟩ := initNewMaster_eq h
      exact ⟨Or.inr (Or.inl rfl), ho⟩
    · next hpro =>
      cases h
      exact ⟨Or.inr (Or.inr ⟨hturn.1, hturn.2, probeMasterTcp_nonneg hpro, rfl⟩), by simp⟩
  · cases h
    exact ⟨Or.inl rfl, by simp⟩

theorem sendLoad_change (h : sendLoad cfg connect s = some (s', out)) :
    Change cfg (.tick connect) s s' ∧ ∀ o ∈ out, s'.masterPtr = some o.master := by
  unfold sendLoad at h
  split at h
  · cases h
    exact ⟨.same cfg _ s, by simp⟩
  next hme =>
    have hme : s.masterMe = false := by simpa using hme
    dsimp only at h
    split at h
    · cases h
      exact ⟨.waits _, by simp⟩
    split at h
    · next hkno =>
      split at h
      · cases h
      next hn =>
        obtain ⟨m, hm⟩ := Option.ne_none_iff_exists'.mp hn
        split at h
        · next hretry =>
          obtain ⟨hc, hout⟩ := takeOver_cases h
          refine ⟨?_, hout⟩
          rcases hc with rfl | rfl | ⟨hcan, hturn, ⟨hPtr, hcon, hlast, ho⟩, rfl⟩
          · exact .waits _
          · exact .takesOver _ hme (Or.inl rfl)
          · have hPtr_eq : hPtr = m := by simpa [hm] using hlast.symm
            have hcha := @Change.reverts cfg (.tick connect) s m (by rw [hcon]) hme hkno hm (hPtr_eq ▸ ho) hcan hturn hretry
            simpa [hkno] using hcha
        · obtain ⟨hc, hout⟩ := takeOver_cases h
          refine ⟨?_, hout⟩
          rcases hc with rfl | rfl | ⟨-, -, -, rfl⟩
          · exact .forgets _ hme hkno
          · exact .takesOver _ hme (Or.inr rfl)
          · have hcha : Change cfg (.tick connect) s _ := .recovers hme hkno
            simpa [forgetMaster, hkno] using hcha
    · next hkno =>
      have hkno : s.masterKnown = false := by simpa using hkno
      obtain ⟨hc, hout⟩ := takeOver_cases h
      refine ⟨?_, hout⟩
      rcases hc with rfl | rfl | ⟨-, -, ⟨hPtr, -, hlast, ho⟩, rfl⟩
      · exact .waits _
      · exact .takesOver _ hme (Or.inl rfl)
      · exact .recalls hPtr hme hkno hlast ho

theorem handle_change (h : handle cfg op s = some (s', out)) :
    Change cfg op s s' ∧ ∀ o ∈ out, s'.masterPtr = some o.master := by
  cases op with
  | register masterReg => exact masterRegister_change h
  | tick connect => exact sendLoad_change h

/-- A host of the cluster whose number is at most that of the LIM's own host. -/
def Lower (cfg : Config) (p : Option HostNode) : Prop :=
  ∀ h ∈ p, h ∈ cfg.hostList ∧ h.hostNo ≤ cfg.myHostPtr.hostNo

structure Sound (cfg : Config) (s : State) : Prop where
  master : Lower cfg s.masterPtr
  prev : Lower cfg s.prevMasterPtr
  me : s.masterMe = true → s.masterKnown = true ∧ s.masterPtr = some cfg.myHostPtr
  unknown : s.masterKnown = false → s.masterPtr = none

theorem lower_none (cfg : Config) : Lower cfg none := by simp [Lower]

theorem lower_me (cfg : Config) : Lower cfg (some cfg.myHostPtr) := by
  rintro h ⟨⟩
  exact ⟨cfg.myHostPtr_mem, le_rfl⟩

theorem Change.sound (hc : Change cfg op s s') (h : Sound cfg s) : Sound cfg s' := by
  cases hc with
  | waits count => exact ⟨h.master, h.prev, h.me, h.unknown⟩
  | givesIn hPtr hmem hlt =>
    refine ⟨?_, h.master, by simp [giveIn], by simp [giveIn]⟩
    rintro g ⟨⟩
    exact ⟨hmem, hlt.le⟩
  | takesOver prev hme hprev =>
    refine ⟨lower_me cfg, ?_, fun _ => ⟨rfl, rfl⟩, by simp⟩
    rcases hprev with rfl | rfl
    · exact h.master
    · exact lower_none cfg
  | forgets count hme hkno => exact ⟨lower_none cfg, h.master, by simp [forgetMaster, hme], fun _ => rfl⟩
  | recovers hme hkno => exact ⟨h.master, h.master, by simp [hme], by simp [hkno]⟩
  | recalls hPtr hme hkno hlast ho => exact ⟨h.prev, h.prev, by simp [hme], by simp⟩
  | reverts m hop hme hkno hm ho hc hturn hretry => exact ⟨h.prev, h.prev, by simp [hme], by simp [hkno]⟩

/-- The master a LIM knows is itself or a host before it; it is master iff that is itself. -/
structure Consistent (cfg : Config) (s : State) : Prop where
  known : s.masterKnown = true → ∃ h ∈ cfg.hostList, s.masterPtr = some h ∧ h.hostNo ≤ cfg.myHostPtr.hostNo
  me : s.masterMe = true ↔ s.masterKnown = true ∧ s.masterPtr = some cfg.myHostPtr

/-- No candidate whose turn it is finds by the probe the master it still knows. -/
def ProbeOk (cfg : Config) (op : Op) (s : State) : Prop :=
  op = .tick .done → s.masterMe = false → s.masterKnown = true → cfg.computeOnly = false →
    cfg.hostInactivityLimit + cfg.myHostPtr.hostNo * cfg.masterInactivityLimit < s.masterInactivityCount + 1 →
    s.masterInactivityCount + 1 ≤ cfg.hostInactivityLimit + cfg.retryLimit →
    ∃ h, s.prevMasterPtr = some h ∧ h ≠ cfg.myHostPtr

theorem Consistent.of_master (hs : Sound cfg s) (hme : s.masterMe = false) (hh : s.masterPtr = some h)
    (ho : h ≠ cfg.myHostPtr) : Consistent cfg s := by
  refine ⟨fun _ => ⟨h, (hs.master h hh).1, hh, (hs.master h hh).2⟩, ?_⟩
  simp [hme, hh, ho]

theorem Change.consistent (hc : Change cfg op s s') (hs : Sound cfg s) (h : Consistent cfg s)
    (hok : ProbeOk cfg op s) : Consistent cfg s' := by
  have hs' := hc.sound hs
  cases hc with
  | waits count => exact ⟨h.known, h.me⟩
  | givesIn hPtr hmem hlt => exact .of_master hs' rfl rfl (by rintro rfl; exact lt_irrefl _ hlt)
  | takesOver prev hme hprev => exact ⟨fun _ => ⟨_, cfg.myHostPtr_mem, rfl, le_rfl⟩, by simp⟩
  | forgets count hme hkno => exact ⟨by simp [forgetMaster], by simp [forgetMaster, hme]⟩
  | recovers hme hkno => exact ⟨h.known, h.me⟩
  | recalls hPtr hme hkno hlast ho =>
    rw [hs.unknown hkno] at hlast
    exact .of_master hs' hme hlast ho
  | reverts m hop hme hkno hm ho hc hturn hretry =>
    obtain ⟨g, hg, hne⟩ := hok hop hme hkno hc hturn hretry
    exact .of_master hs' hme hg hne

theorem probeOk_of_consistent (h : Consistent cfg s)
    (hnext : ∀ s', (handle cfg op s).map Prod.fst = some s' → Consistent cfg s') : ProbeOk cfg op s := by
  rintro rfl hme hkno hc hturn hretry
  obtain ⟨m, hmem, hm, hle⟩ := h.known hkno
  have ho : m ≠ cfg.myHostPtr := by
    rintro rfl
    simp [h.me.mpr ⟨hkno, hm⟩] at hme
  have hs : ¬ s.masterInactivityCount + 1 ≤ cfg.hostInactivityLimit := by omega
  have hn := hnext { s with masterInactivityCount := 0, masterPtr := s.prevMasterPtr } (by
    simp [handle, sendLoad, hme, hs, hkno, hm, hretry, takeOver, hc, hturn, probeMasterTcp, ho])
  obtain ⟨g, -, hg, -⟩ := hn.known hkno
  refine ⟨g, hg, ?_⟩
  rintro rfl
  have := hn.me.mpr ⟨hkno, hg⟩
  simp [hme] at this

theorem Consistent.handle_isSome (h : Consistent cfg s) (op : Op) : ∃ s' out, handle cfg op s = some (s', out) := by
  have hr : ∀ hPtr, s.masterKnown = true → ∃ s' out, announceMasterToHost hPtr s = some (s', out) := by
    intro hPtr hkno
    obtain ⟨m, -, hm, -⟩ := h.known hkno
    exact ⟨s, [⟨hPtr, m⟩], by simp [announceMasterToHost, hm]⟩
  have htakeOver : ∀ connect t, ∃ s' out, takeOver cfg connect t = some (s', out) := by
    intro connect t
    unfold takeOver
    split_ifs
    · exact ⟨_, _, rfl⟩
    · exact ⟨_, _, rfl⟩
    · exact ⟨_, _, rfl⟩
  cases op with
  | register masterReg =>
    simp only [handle, masterRegister]
    split
    · exact ⟨_, _, rfl⟩
    split
    · exact ⟨_, _, rfl⟩
    split
    · exact ⟨_, _, rfl⟩
    split
    · exact ⟨_, _, rfl⟩
    split
    · next hl =>
      obtain ⟨m, -, hm, -⟩ := h.known hl.1
      simp only [hm]
      split
      · exact hr _ hl.1
      · exact ⟨_, _, rfl⟩
    split
    · exact ⟨_, _, rfl⟩
    split
    · next hkno => exact hr _ hkno.1
    · exact ⟨_, _, rfl⟩
  | tick connect =>
    simp only [handle, sendLoad]
    split_ifs with hme hc hkno hn
    · exact ⟨_, _, rfl⟩
    · exact ⟨_, _, rfl⟩
    · obtain ⟨m, -, hm, -⟩ := h.known hkno
      simp [hm] at hn
    · exact htakeOver _ _
    · exact htakeOver _ _
    · exact htakeOver _ _

def Healthy (cfg : Config) (lim : Option State) : Prop := ∃ s, lim = some s ∧ Consistent cfg s

theorem start_eq (cfg : Config) : ∃ s out, start cfg = some (s, out) ∧ Sound cfg s ∧ Consistent cfg s := by
  unfold start
  dsimp only
  split_ifs with hz
  · refine ⟨_, _, rfl, ⟨lower_me cfg, lower_none cfg, fun _ => ⟨rfl, rfl⟩, by simp⟩, ?_⟩
    exact ⟨fun _ => ⟨_, cfg.myHostPtr_mem, rfl, le_rfl⟩, by simp⟩
  · refine ⟨_, _, rfl, ⟨lower_none cfg, lower_none cfg, by simpa using hz, fun _ => rfl⟩, ?_⟩
    exact ⟨by simp, by simpa using hz⟩

theorem start_out (h : start cfg = some (s', out)) : ∀ o ∈ out, s'.masterPtr = some o.master := by
  unfold start at h
  dsimp only at h
  split at h
  · exact (initNewMaster_eq h).2
  · cases h
    simp

/-- In every state of a run the LIM is healthy iff no step of the run probes out of order. -/
theorem master_consistent_iff (cfg : Config) (ops : List Op) : Healthy cfg ((start cfg).map Prod.fst) ∧
      (Run.Meets (step cfg) (fun op lim => Healthy cfg (step cfg op lim)) ops ((start cfg).map Prod.fst) ↔
        Run.Meets (step cfg) (fun op lim => ∀ s ∈ lim, ProbeOk cfg op s) ops ((start cfg).map Prod.fst)) := by
  obtain ⟨s0, out, hsta, hs0, hc0⟩ := start_eq cfg
  rw [hsta]
  refine ⟨⟨s0, rfl, hc0⟩, ?_⟩
  refine Run.meets_property_iff (I := fun lim => ∃ s, lim = some s ∧ Sound cfg s ∧ Consistent cfg s) ?_ ?_ ops _
    ⟨s0, rfl, hs0, hc0⟩
  · rintro op _ ⟨s, rfl, hs, hc⟩ hok
    obtain ⟨s', out, hh⟩ := hc.handle_isSome op
    have hcha := (handle_change hh).1
    exact ⟨s', by simp [step, hh], hcha.sound hs, hcha.consistent hs hc (hok s rfl)⟩
  · rintro op _ ⟨s, rfl, hs, hc⟩
    obtain ⟨s', out, hh⟩ := hc.handle_isSome op
    have hcha := (handle_change hh).1
    have hstep : step cfg op (some s) = some s' := by simp [step, hh]
    rw [hstep]
    constructor
    · rintro ⟨_, ⟨⟩, hn⟩ _ ⟨⟩
      refine probeOk_of_consistent hc ?_
      rw [hh]
      rintro _ ⟨⟩
      exact hn
    · intro hok
      exact ⟨s', rfl, hcha.consistent hs hc (hok s rfl)⟩

def secondOfTwo : Config where
  clName := ['c']
  hostList := [⟨['a'], 0⟩, ⟨['b'], 1⟩]
  myHostPtr := ⟨['b'], 1⟩
  myHostPtr_mem := by decide
  hostInactivityLimit := 2
  masterInactivityLimit := 1
  retryLimit := 2
  computeOnly := false

/-- The second host, whose turn comes while it knows its silent master, is left with a null
pointer. -/
theorem master_lost : ¬ Run.Meets (step secondOfTwo) (fun op lim => Healthy secondOfTwo (step secondOfTwo op lim))
      [.register ⟨['c'], ['a']⟩, .tick .done, .tick .done, .tick .done, .tick .done]
      ((start secondOfTwo).map Prod.fst) := by
  rintro ⟨-, -, -, -, ⟨s, hs, hc⟩, -⟩
  cases hs
  obtain ⟨h, -, hh, -⟩ := hc.known (by decide)
  exact absurd hh (by simp [giveIn])

end OpenLava.Lim

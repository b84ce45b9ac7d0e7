import OpenLava.Mbd.RunJob

/-!
# The hosts of a forced run

`setUrgentJobExecHosts` drops repeated names by comparing the texts, but `getHostData` finds a host by any of its names.
-/

namespace OpenLava

open List

def LOST_AND_FOUND : String := "lost_and_found"

/-- Over the host table and what `Gethostbyname_` answers. -/
def getHostData (hostTab : String → Option HRef) (gethostbyname : String → Option String) (host : String) : Option HRef :=
  match hostTab host with
  | some h => some h
  | none => if host = LOST_AND_FOUND then none else (gethostbyname host).bind hostTab

section

variable {α : Type} [DecidableEq α] {c : α → Nat} {l pre : List α} {a : α} {n : Nat}

def slots (c : α → Nat) (l : List α) : List α := l.flatMap fun a => replicate (c a) a

omit [DecidableEq α] in
theorem slots_cons (c : α → Nat) (a : α) (l : List α) : slots c (a :: l) = replicate (c a) a ++ slots c l := rfl

omit [DecidableEq α] in
theorem slots_append (c : α → Nat) (l l' : List α) : slots c (l ++ l') = slots c l ++ slots c l' := flatMap_append

omit [DecidableEq α] in
theorem slots_length (c : α → Nat) (l : List α) : (slots c l).length = (l.map c).sum := by
  simp [slots, length_flatMap]

omit [DecidableEq α] in
theorem mem_of_slots (h : a ∈ slots c l) : a ∈ l := by
  obtain ⟨b, hb, hab⟩ := mem_flatMap.mp h
  exact eq_of_mem_replicate hab ▸ hb

theorem count_slots (c : α → Nat) (a : α) (l : List α) : (slots c l).count a = l.count a * c a := by
  induction l with
  | nil => rw [count_nil, Nat.zero_mul]; rfl
  | cons b l ih =>
    rw [slots_cons, count_append, ih, count_replicate, count_cons]
    by_cases hab : b = a <;> simp [hab, Nat.succ_mul, Nat.add_comm]

/-- The entries that come again come too late for the first `n` slots. -/
def AgainLate (c : α → Nat) (n : Nat) (l : List α) : Prop :=
  ∀ pre a post, l = pre ++ a :: post → a ∈ pre → 0 < c a → n ≤ (pre.map c).sum

/-- An entry that comes again while slots are left gets more than its own. -/
theorem count_take_slots_gt (post : List α) (ha : a ∈ pre) (hc : 0 < c a) (hn : (pre.map c).sum < n) :
    c a < ((slots c (pre ++ a :: post)).take n).count a := by
  have hl := slots_length c pre
  rw [slots_append, slots_cons, take_append, take_of_length_le (by omega), count_append]
  obtain ⟨k, hk⟩ : ∃ k, n - (slots c pre).length = k + 1 := ⟨n - (slots c pre).length - 1, by omega⟩
  obtain ⟨m, hm⟩ : ∃ m, c a = m + 1 := ⟨c a - 1, by omega⟩
  have hold : c a ≤ (slots c pre).count a := by
    rw [count_slots]
    exact Nat.le_mul_of_pos_left _ (count_pos_iff.mpr ha)
  rw [hk, hm, replicate_succ, cons_append, take_succ_cons, count_cons_self]
  omega

theorem count_take_slots_le (h : AgainLate c n l) (a : α) : ((slots c l).take n).count a ≤ c a := by
  have hle : ∀ q : List α, ((slots c q).take n).count a ≤ q.count a * c a := fun q =>
    ((take_sublist _ _).count_le a).trans_eq (count_slots c a q)
  have ho : ∀ q : List α, q.count a ≤ 1 → ((slots c q).take n).count a ≤ c a := fun q hq =>
    (hle q).trans (by simpa using Nat.mul_le_mul_right (c a) hq)
  rcases Nat.eq_zero_or_pos (c a) with hc | hc
  · simpa [hc] using hle l
  by_cases ha : a ∈ l
  · obtain ⟨pre, post, rfl, hpre⟩ := eq_append_cons_of_mem ha
    by_cases ha' : a ∈ post
    · -- the slots end before the second occurrence
      obtain ⟨mid, post, rfl, hmid⟩ := eq_append_cons_of_mem ha'
      have hl : n ≤ ((pre ++ a :: mid).map c).sum := h (pre ++ a :: mid) a post (by simp) (by simp) hc
      have hc : (slots c (pre ++ a :: (mid ++ a :: post))).take n = (slots c (pre ++ a :: mid)).take n := by
        rw [show pre ++ a :: (mid ++ a :: post) = (pre ++ a :: mid) ++ a :: post by simp, slots_append,
          take_append_of_le_length (by rw [slots_length]; exact hl)]
      rw [hc]
      exact ho _ (by simp [count_eq_zero.mpr hpre, count_eq_zero.mpr hmid])
    · exact ho _ (by simp [count_eq_zero.mpr hpre, count_eq_zero.mpr ha'])
  · exact ho _ (by simp [count_eq_zero.mpr ha])

theorem count_take_slots_iff : (∀ a, ((slots c l).take n).count a ≤ c a) ↔ AgainLate c n l := by
  refine ⟨fun h pre a post hl ha hc => ?_, fun h a => count_take_slots_le h a⟩
  by_contra hn
  have hgt := count_take_slots_gt post ha hc (by omega : (pre.map c).sum < n)
  exact absurd (hl ▸ h a) (by omega)

end

section

variable {env : RunEnv} {request : RunJobRequest} {hosts : HRef → HData} {jobBill : JobBill} {hPtr reqHosts : List HRef}

theorem fillHosts_eq (hosts : HRef → HData) (numHostSlots : Nat) (reqHosts : List HRef) :
    fillHosts hosts numHostSlots reqHosts = (slots (fun h => (hosts h).numCPUs) reqHosts).take numHostSlots := by
  -- a part of the array, however long, is filled up in the same way
  suffices h : ∀ hPtr : List HRef, hPtr.length ≤ numHostSlots → reqHosts.foldl (fun hPtr h =>
      let numCPUNeeded :=
        if hPtr.length + (hosts h).numCPUs > numHostSlots then numHostSlots - hPtr.length else (hosts h).numCPUs
      hPtr ++ replicate numCPUNeeded h) hPtr =
        hPtr ++ (slots (fun h => (hosts h).numCPUs) reqHosts).take (numHostSlots - hPtr.length) from h [] (Nat.zero_le _)
  induction reqHosts with
  | nil => intro hPtr _; simp [slots]
  | cons h reqHosts ih =>
    intro hPtr hle
    rw [foldl_cons, slots_cons, take_append, take_replicate]
    split_ifs with hf
    · rw [ih _ (by simp; omega), Nat.min_eq_left (by omega)]
      simp
      omega
    · rw [ih _ (by simp; omega), Nat.min_eq_right (by omega)]
      simp [Nat.sub_sub]

theorem checkReqHosts_mem (hc : checkReqHosts env hosts names = .ok reqHosts)
    (hmem : h ∈ reqHosts) : ∃ name ∈ names, env.getHostData name = some h := by
  induction names generalizing reqHosts with
  | nil =>
    cases hc
    cases hmem
  | cons name names ih =>
    rw [checkReqHosts] at hc
    split at hc
    · cases hc
    · next h' hname =>
      split_ifs at hc
      cases hr : checkReqHosts env hosts names with
      | error cc => rw [hr] at hc; cases hc
      | ok rest =>
        rw [hr] at hc
        cases hc
        rcases mem_cons.mp hmem with rfl | hmem
        · exact ⟨name, mem_cons_self, hname⟩
        · obtain ⟨name', hname', heq⟩ := ih hr hmem
          exact ⟨name', mem_cons_of_mem _ hname', heq⟩

theorem uniqueEntries_mem (h : name ∈ uniqueEntries hostname) : name ∈ hostname := by
  have hf : ∀ (names reqHosts : List String), name ∈ names.foldl (fun reqHosts host =>
      if host ∈ reqHosts then reqHosts else reqHosts ++ [host]) reqHosts → name ∈ reqHosts ∨ name ∈ names := by
    intro names
    induction names with
    | nil => exact fun _ h => .inl h
    | cons host names ih =>
      intro reqHosts h
      rcases ih _ h with h | h
      · dsimp only at h
        split_ifs at h
        · exact .inl h
        · rcases mem_append.mp h with h | h
          · exact .inl h
          · exact .inr (mem_cons.mpr (.inl (mem_singleton.mp h)))
      · exact .inr (mem_cons_of_mem _ h)
  exact (hf hostname [] h).resolve_left (not_mem_nil)

theorem setUrgentJobExecHosts_eq (hr : checkReqHosts env hosts (uniqueEntries request.hostname) = .ok reqHosts)
    (hok : setUrgentJobExecHosts env request hosts jobBill = .ok hPtr) :
    hPtr = (slots (fun h => (hosts h).numCPUs) reqHosts).take jobBill.maxNumProcessors ∧
      jobBill.numProcessors ≤ hPtr.length ∧ hPtr.length ≤ jobBill.maxNumProcessors := by
  have hc : ∀ (l : List HRef) n, l.take (Nat.min l.length n) = l.take n := fun l n => by
    rw [take_eq_take_iff]
    exact (Nat.min_eq_left (Nat.min_le_left _ _)).trans (Nat.min_comm _ _)
  unfold setUrgentJobExecHosts at hok
  simp only [hr, fillHosts_eq, ← slots_length, hc] at hok
  split_ifs at hok <;> cases hok <;> refine ⟨rfl, ?_⟩ <;> rw [length_take] <;> omega

structure ExecHostsOk (env : RunEnv) (request : RunJobRequest) (hosts : HRef → HData) (jobBill : JobBill)
    (hPtr : List HRef) : Prop where
  processors : jobBill.numProcessors ≤ hPtr.length ∧ hPtr.length ≤ jobBill.maxNumProcessors
  requested : ∀ h ∈ hPtr, ∃ name ∈ request.hostname, env.getHostData name = some h
  cpus : ∀ h, hPtr.count h ≤ (hosts h).numCPUs

/-- The array is as asked iff a host is named again only when all processors are given. -/
theorem setUrgentJobExecHosts_ok_iff (hreq : checkReqHosts env hosts (uniqueEntries request.hostname) = .ok reqHosts)
    (hok : setUrgentJobExecHosts env request hosts jobBill = .ok hPtr) : ExecHostsOk env request hosts jobBill hPtr ↔
      AgainLate (fun h => (hosts h).numCPUs) jobBill.maxNumProcessors reqHosts := by
  obtain ⟨rfl, hmin, hmax⟩ := setUrgentJobExecHosts_eq hreq hok
  refine ⟨fun h => count_take_slots_iff.mp h.cpus, fun h => ⟨⟨hmin, hmax⟩, fun x hx => ?_, count_take_slots_iff.mpr h⟩⟩
  obtain ⟨name, hname, heq⟩ := checkReqHosts_mem hreq (mem_of_slots (mem_of_mem_take hx))
  exact ⟨name, uniqueEntries_mem hname, heq⟩

def twoHosts : RunEnv where
  getJobData := fun _ => some 0
  getHostData := getHostData (fun host => if host = "hostA" then some 0 else if host = "hostB" then some 1 else none)
    fun host => if host = "hostA.domain" then some "hostA" else none

def twoProcessors : HRef → HData := fun _ => { maxJobs := 10, numCPUs := 2 }

theorem setUrgentJobExecHosts_ok_hostA_hostB :
    ExecHostsOk twoHosts { jobId := 1, hostname := ["hostA", "hostB", "hostA"] } twoProcessors
      { queue := 0, numProcessors := 3, maxNumProcessors := 3 } [0, 0, 1] := by
  have hr : checkReqHosts twoHosts twoProcessors (uniqueEntries ["hostA", "hostB", "hostA"]) = .ok [0, 1] := by decide
  refine (setUrgentJobExecHosts_ok_iff hr (by decide)).mpr ?_
  intro pre h post hs hmem _
  have hn : ([0, 1] : List HRef).Nodup := by decide
  rw [hs, nodup_append] at hn
  exact absurd rfl (hn.2.2 h hmem h mem_cons_self)

/-- A host of two processors is taken four times by two names. -/
theorem setUrgentJobExecHosts_by_two_names :
    ∃ hPtr, setUrgentJobExecHosts twoHosts { jobId := 1, hostname := ["hostA", "hostA.domain"] } twoProcessors
        { queue := 0, numProcessors := 4, maxNumProcessors := 4 } = .ok hPtr ∧
      ¬ ExecHostsOk twoHosts { jobId := 1, hostname := ["hostA", "hostA.domain"] } twoProcessors
        { queue := 0, numProcessors := 4, maxNumProcessors := 4 } hPtr :=
  ⟨[0, 0, 0, 0], by decide, fun h => absurd (h.cpus 0) (by decide)⟩

end

end OpenLava

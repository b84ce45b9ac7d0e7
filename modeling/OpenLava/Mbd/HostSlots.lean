import OpenLava.Mbd.Backfillees
import OpenLava.Mbd.Proxies
import OpenLava.Mbd.UserLimits

/-!
# The slots of a host for a job that backfills

Before `getHostJobSlots` counts the slots that a host has left, it takes away what the backfillees have reserved there,
and gives it back from snapshots. It goes through the list of the reserving jobs while the reservations move its
entries, and three of its returns come before the slots are given back.
-/

namespace OpenLava.Dispatch

open List

open Ledger (updateEach)

/-- What `getHostJobSlots` is asked, for a job and a host. -/
structure SlotQuery where
  hp : HRef
  qp : QRef -- the queue of the job, with its limits
  pJobLimit : Option Rat := none
  hJobLimit : Option Int := none
  canBackfill : Bool := true -- `JOB_CAN_BACKFILL` and `HOST_USABLE`
  startsEarly : JobRef → Bool := fun _ => false -- the predicted start of the reserving job is not known, or too early
  candAvail : JobRef → Option Nat -- `numAvailSlots` of the host among the candidates of the reserving job
  getHostJobSlots1 : Mbd → Int × Int -- `getHostJobSlots1`, with its `numAvailSlots1`

def limitLeft (limit : Int) (hAcct : Option Acct) : Int :=
  let numSlots := match hAcct with
    | some a => limit - a .numRUN - a .numSSUSP - a .numUSUSP - a .numRESERVE
    | none => limit
  if numSlots ≤ 0 then 0 else numSlots

def pJobLimitOk (hp : HData) (hAcct : Option Acct) : Option Rat → Int
  | none => UserLimits.INFINIT_INT
  | some limit => if limit ≤ 0 then 0 else limitLeft (⌈limit * (if hp.numCPUs = 0 then 1 else hp.numCPUs)⌉) hAcct

def hJobLimitOk (hAcct : Option Acct) : Option Int → Int
  | none => UserLimits.INFINIT_INT
  | some limit => if limit ≤ 0 then 0 else limitLeft limit hAcct

/-- An entry of `theBackfilleeList`: the backfillee with its array as it was. -/
structure Snapshot where
  backfilleePtr : JobRef
  backfillSlots : Nat
  hPtr : List HRef
  deriving DecidableEq, Repr

/-- The slots that a reserving job lends; for 0 the loop continues with the next job. -/
def SlotQuery.backfillSlots (q : SlotQuery) (jp : JData) (j : JobRef) : Nat :=
  if q.startsEarly j then 0
  else match q.candAvail j with
    | none => 0
    | some numAvailSlots => min numAvailSlots (jp.hPtr.count q.hp)

/-- The entries from `nextListEntry` on, which was read before the lists were changed. -/
def fromNext : List JobRef → List JobRef → List JobRef
  | [], _ => []
  | next :: _, entries => entries.dropWhile (· ≠ next)

/-- The loop over `pxyRsvJL`: the entries left, and the snapshots so far. -/
def takeSlots (C : Config) (now : Int) (q : SlotQuery) : Nat → List JobRef → Mbd → List Snapshot →
    Option (Mbd × List Snapshot)
  | 0, _, _, _ => none
  | _ + 1, [], s, bs => some (s, bs)
  | fuel + 1, j :: rest, s, bs =>
    let n := q.backfillSlots (s.jobs j) j
    if n = 0 then takeSlots C now q fuel rest s bs
    else
      let hPtr := (s.jobs j).hPtr
      let s := reserveAnew C now j (removeNOccuranceOfHost q.hp n hPtr) s
      takeSlots C now q fuel (fromNext rest (s.hosts q.hp).pxyRsvJL) s (bs ++ [⟨j, n, hPtr⟩])

/-- The loop over `theBackfilleeList`. -/
def giveSlotsBack (C : Config) (now : Int) (s : Mbd) (b : Snapshot) : Mbd :=
  let j := b.backfilleePtr
  let s := if (s.jobs j).hPtr ≠ [] then freeReserveSlots j s else s
  reserveSlots C now j (s.modJob j fun jp => { jp with hPtr := b.hPtr })

structure HostSlots where
  mbd : Mbd
  (numSlots numAvailSlots : Int)
  backfilleeList : List Snapshot

def turnsOf (s : Mbd) (hp : HRef) (entries : List JobRef) : Nat :=
  entries.length + (entries.map fun j => (s.jobs j).hPtr.count hp).sum

def SlotQuery.taken (C : Config) (now : Int) (q : SlotQuery) (s : Mbd) : Option (Mbd × List Snapshot) :=
  let entries := (s.hosts q.hp).pxyRsvJL
  if q.canBackfill then takeSlots C now q (turnsOf s q.hp entries + 1) entries s [] else some (s, [])

def SlotQuery.numSlots (q : SlotQuery) (s : Mbd) : Int × Int :=
  let hAcct := (s.queues q.qp).hAcct q.hp
  (pJobLimitOk (s.hosts q.hp) hAcct q.pJobLimit, hJobLimitOk hAcct q.hJobLimit)

def SlotQuery.Enough (q : SlotQuery) (s : Mbd) : Prop :=
  1 ≤ (q.numSlots s).1 ∧ 1 ≤ (q.numSlots s).2 ∧ (q.getHostJobSlots1 s).1 ≠ 0
  deriving Decidable

def SlotQuery.answer (C : Config) (now : Int) (q : SlotQuery) (s : Mbd) (bs : List Snapshot) : HostSlots :=
  let numSlots := (q.numSlots s).1
  let numSlots1 := (q.numSlots s).2
  if 1 > numSlots then ⟨s, 0, 0, []⟩
  else if 1 > numSlots1 then ⟨s, 0, 0, []⟩
  else
    let numSlots := min numSlots numSlots1
    let slots1 := q.getHostJobSlots1 s
    if slots1.1 = 0 then ⟨s, 0, 0, []⟩
    else ⟨bs.foldl (giveSlotsBack C now) s, min numSlots slots1.1, min numSlots slots1.2, bs⟩

def getHostJobSlots (C : Config) (now : Int) (q : SlotQuery) (s : Mbd) : Option HostSlots :=
  (q.taken C now s).map fun r => q.answer C now r.1 r.2

section

theorem pxyRsvJL_add (jp : JData) (hl : (s.hosts x).remote = false) (hnot : j ∉ (s.hosts x).pxyRsvJL) :
    ((proxyHRsvJLAddEntry j jp s).hosts x).pxyRsvJL = (s.hosts x).pxyRsvJL ++ if x ∈ jp.hPtr then [j] else [] := by
  set add : HData → HData := fun hp =>
    if hp.remote ∨ j ∈ hp.pxyRsvJL then hp else { hp with pxyRsvJL := hp.pxyRsvJL ++ [j] } with ha
  show (updateEach (fun _ => add) jp.hPtr s.hosts x).pxyRsvJL = _
  by_cases hx : x ∈ jp.hPtr
  · obtain ⟨n, hn⟩ : ∃ n, jp.hPtr.count x = n + 1 := Nat.exists_eq_succ_of_ne_zero (count_pos_iff.mpr hx).ne'
    have hf : add (s.hosts x) = { s.hosts x with pxyRsvJL := (s.hosts x).pxyRsvJL ++ [j] } :=
      if_neg (by simp [hl, hnot])
    have hfix : Function.IsFixedPt add (add (s.hosts x)) := if_pos (.inr (by rw [hf]; simp))
    rw [Ledger.updateEach_apply, hn, Function.iterate_succ_apply, hfix.iterate n, hf, if_pos hx]
  · rw [Ledger.updateEach_apply_of_notMem _ _ _ _ hx, if_neg hx, append_nil]

theorem pxyRsvJL_remove (jp : JData) (hl : (s.hosts x).remote = false) (hnod : (s.hosts x).pxyRsvJL.Nodup)
    (hx : x ∈ jp.hPtr) : ((proxyHRsvJLRemoveEntry j jp s).hosts x).pxyRsvJL = (s.hosts x).pxyRsvJL.erase j := by
  set remove : HData → HData := fun hp =>
    if hp.remote then hp else { hp with pxyRsvJL := hp.pxyRsvJL.erase j } with hr
  show (updateEach (fun _ => remove) jp.hPtr s.hosts x).pxyRsvJL = _
  obtain ⟨n, hn⟩ : ∃ n, jp.hPtr.count x = n + 1 := Nat.exists_eq_succ_of_ne_zero (count_pos_iff.mpr hx).ne'
  have hf : remove (s.hosts x) = { s.hosts x with pxyRsvJL := (s.hosts x).pxyRsvJL.erase j } :=
    if_neg (by simp [hl])
  -- there is nothing left to remove after the first turn
  have hg : j ∉ (s.hosts x).pxyRsvJL.erase j := hnod.not_mem_erase
  have hfix : Function.IsFixedPt remove (remove (s.hosts x)) := by
    rw [Function.IsFixedPt, hf, hr]
    dsimp only
    rw [if_neg (by simp [hl]), erase_of_not_mem hg]
  rw [Ledger.updateEach_apply, hn, Function.iterate_succ_apply, hfix.iterate n, hf]

/-- A pending job changes its reservation: the postings, and then the proxies. -/
theorem updResCounters_pending (hpend : (s.jobs j).phase = some .pending) (b : Bool)
    (hf : (s.jobs j).jStatus.reserve = !b) : ∃ p, updResCounters j (s.jobs j) { (s.jobs j).jStatus with reserve := b }
    s = if b then proxyHRsvJLAddEntry j (s.jobs j) (post (s.jobs j) p s) else proxyHRsvJLRemoveEntry j (s.jobs j)
    (post (s.jobs j) p s) := by
  have hr := Mask.phase_reads (m := (s.jobs j).jStatus.mask) hpend
  obtain ⟨p, hrow⟩ := updResCountersRow_proxy hpend (.inl rfl) b hf
  refine ⟨p, ?_⟩
  unfold updResCounters
  rw [if_neg (by simp [hr.isPend]), hrow]
  cases b <;> rfl

theorem freeReserveSlots_pxyRsvJL (hpend : (s.jobs j).phase = some .pending) (hr : (s.jobs j).jStatus.reserve = true)
    (hl : (s.hosts x).remote = false) (hn : (s.hosts x).pxyRsvJL.Nodup) (hx : x ∈ (s.jobs j).hPtr) :
    ((freeReserveSlots j s).hosts x).pxyRsvJL = (s.hosts x).pxyRsvJL.erase j := by
  obtain ⟨p, hu⟩ := updResCounters_pending hpend false hr
  have hd : ∀ s : Mbd, ((deallocHosts j s).hosts x).pxyRsvJL = (s.hosts x).pxyRsvJL := fun s =>
    Ledger.updateEach_field HData.pxyRsvJL (fun _ hp => { hp with numDispJobs := hp.numDispJobs + -1 })
      (fun _ _ => rfl) _ s.hosts x
  rw [freeReserveSlots, if_neg (not_not.mpr hr), hd, dropReserve, Mbd.modJob_hosts, hu]
  rw [if_neg Bool.false_ne_true, pxyRsvJL_remove _ (by rwa [post_remote]) (by rwa [post_pxyRsvJL]) hx, post_pxyRsvJL]

theorem reserveSlots_pxyRsvJL (now : Int) (hpend : (s.jobs j).phase = some .pending)
    (hr : (s.jobs j).jStatus.reserve = false) (hl : (s.hosts x).remote = false) (hn : j ∉ (s.hosts x).pxyRsvJL) :
    ((reserveSlots C now j s).hosts x).pxyRsvJL = (s.hosts x).pxyRsvJL ++ if x ∈ (s.jobs j).hPtr then [j] else [] := by
  have ht : ∀ s : Mbd, (s.jobs j).phase = some .pending → (s.jobs j).jStatus.reserve = false →
      (s.hosts x).remote = false → j ∉ (s.hosts x).pxyRsvJL → ((takeReserve j s).hosts x).pxyRsvJL =
        (s.hosts x).pxyRsvJL ++ if x ∈ (s.jobs j).hPtr then [j] else [] := by
    intro s hpend hr hl hn
    obtain ⟨p, hu⟩ := updResCounters_pending hpend true hr
    rw [takeReserve, Mbd.modJob_hosts, hu, if_pos rfl, pxyRsvJL_add _ (by rwa [post_remote]) (by rwa [post_pxyRsvJL]),
      post_pxyRsvJL]
  have hmod := ht (s.modJob j fun jp => { jp with reserveTime := if jp.reserveTime = 0 then now else jp.reserveTime })
    (by rw [modJob_job]; exact hpend) (by rw [modJob_job]; exact hr) hl hn
  rw [modJob_job] at hmod
  unfold reserveSlots
  rw [if_neg (by rw [hr]; exact Bool.false_ne_true)]
  split <;> exact hmod

/-- The entry of the job is taken out, and comes back at the end if the job keeps slots of the host. -/
theorem reserveAnew_pxyRsvJL (C : Config) (now : Int) (hpend : (s.jobs j).phase = some .pending)
    (hr : (s.jobs j).jStatus.reserve = true) (hl : (s.hosts x).remote = false) (hn : (s.hosts x).pxyRsvJL.Nodup)
    (hx : x ∈ (s.jobs j).hPtr) (rest : List HRef) : ((reserveAnew C now j rest s).hosts x).pxyRsvJL =
    (s.hosts x).pxyRsvJL.erase j ++ if x ∈ rest then [j] else [] := by
  have hf := freeReserveSlots_pxyRsvJL hpend hr hl hn hx
  have hj : ((freeReserveSlots j s).modJob j fun jp => { jp with hPtr := rest }).jobs j =
      { (s.jobs j).withReserve false with hPtr := rest } := by
    rw [modJob_job, freeReserveSlots_jobs j s hr, modJob_job]
  unfold reserveAnew
  by_cases hnil : rest = []
  · rw [if_pos hnil, hnil, if_neg not_mem_nil, append_nil]
    exact hf
  · rw [if_neg hnil, reserveSlots_pxyRsvJL now (by rw [hj]; exact hpend) (by rw [hj]; rfl), hj, Mbd.modJob_hosts,
      hf]
    · rw [Mbd.modJob_hosts, ((Around.refl {j} s).freeReserveSlots rfl).remote]
      exact hl
    · rw [Mbd.modJob_hosts, hf]
      exact hn.not_mem_erase

/-- The loop goes on behind the entry taken out, and with it if it came back. -/
theorem fromNext_erase (hn : (pre ++ j :: rest).Nodup) (tail : List JobRef) : (pre ++ j :: rest).erase j = pre ++ rest ∧
    fromNext rest (pre ++ rest ++ tail) = if rest = [] then [] else rest ++ tail := by
  have hpre : j ∉ pre := fun hmem => (disjoint_of_nodup_append hn) hmem mem_cons_self
  refine ⟨by rw [erase_append_right _ hpre, erase_cons_head], ?_⟩
  cases rest with
  | nil => rfl
  | cons next rest =>
    have hnext : ∀ i ∈ pre, i ≠ next := by
      rintro i hi rfl
      exact (disjoint_of_nodup_append hn) hi (mem_cons_of_mem _ mem_cons_self)
    rw [fromNext, append_assoc, dropWhile_append_of_pos fun i hi => by simpa using hnext i hi,
      cons_append, dropWhile_cons_of_neg (by simp), if_neg (cons_ne_nil _ _)]

theorem nodup_moved (hn : (pre ++ j :: rest).Nodup) (back : Prop) [Decidable back] :
    (pre ++ rest ++ if back then [j] else []).Nodup := by
  split
  · rw [append_assoc]
    exact (Perm.append_left pre (perm_append_singleton j rest)).nodup_iff.mpr hn
  · rw [append_nil]
    exact hn.sublist (Sublist.append_left (sublist_cons_self j rest) pre)

end

structure Lends (s : Mbd) (j : JobRef) : Prop where
  live : j ∈ s.live
  pending : (s.jobs j).phase = some .pending
  reserve : (s.jobs j).jStatus.reserve = true

def Rearranged (old new : JData) : Prop :=
  ∃ l r t, new = { old with hPtr := l, jStatus := { old.jStatus with reserve := r }, reserveTime := t }

def snapshotsOf (bs : List Snapshot) (j : JobRef) : List Snapshot := bs.filter (·.backfilleePtr = j)

/-- The last snapshot of a backfillee shows more slots than it has, and all only if it is the only
one. -/
structure Trail (old new : JData) (bs : List Snapshot) : Prop where
  record : Rearranged old new
  reserve : new.jStatus.reserve = true ↔ new.hPtr ≠ []
  sublist : new.hPtr.Sublist old.hPtr
  last : ∃ b, bs.getLast? = some b ∧ new.hPtr.length < b.hPtr.length ∧
    (b.hPtr = old.hPtr ∧ bs.length = 1 ∨ b.hPtr.length < old.hPtr.length ∧ 2 ≤ bs.length)

/-- The loop at some entry, from the daemon `s0` on. -/
structure Taking (s0 s : Mbd) (hp : HRef) (rest : List JobRef) (bs : List Snapshot) : Prop where
  kept : Kept s
  around : Around {j | j ∈ bs.map (·.backfilleePtr)} s0 s
  entries : ∃ pre, (s.hosts hp).pxyRsvJL = pre ++ rest
  nodup : (s.hosts hp).pxyRsvJL.Nodup
  lends : ∀ j ∈ rest, Lends s j
  snapshots : ∀ b ∈ bs, b.hPtr.Sublist (s0.jobs b.backfilleePtr).hPtr ∧ b.hPtr ≠ []
  trail : ∀ j ∈ bs.map (·.backfilleePtr), Lends s0 j ∧ Trail (s0.jobs j) (s.jobs j) (snapshotsOf bs j)

section

theorem Rearranged.refl (jp : JData) : Rearranged jp jp := ⟨_, _, _, rfl⟩

theorem Rearranged.anew (h : Rearranged old new) (now : Int) (l : List HRef) : Rearranged old (JData.anew now l new) := by
  obtain ⟨l', r, t, rfl⟩ := h
  unfold JData.anew
  split <;> exact ⟨_, _, _, rfl⟩

theorem JData.anew_hPtr (now : Int) (l : List HRef) (jp : JData) : (JData.anew now l jp).hPtr = l := by
  unfold JData.anew
  split
  · exact Eq.symm ‹_›
  · rfl

theorem JData.anew_reserve (now : Int) (l : List HRef) (jp : JData) :
    (JData.anew now l jp).jStatus.reserve = true ↔ l ≠ [] := by
  unfold JData.anew
  split <;> simp [JData.withReserve, *]

theorem JData.anew_phase (now : Int) (l : List HRef) (jp : JData) : (JData.anew now l jp).phase = jp.phase := by
  unfold JData.anew
  split <;> rfl

theorem snapshotsOf_append (bs : List Snapshot) (b : Snapshot) (i : JobRef) :
    snapshotsOf (bs ++ [b]) i = snapshotsOf bs i ++ if b.backfilleePtr = i then [b] else [] := by
  unfold snapshotsOf
  by_cases hi : b.backfilleePtr = i <;> simp [hi]

theorem snapshotsOf_eq_nil (hj : j ∉ bs.map (·.backfilleePtr)) : snapshotsOf bs j = [] := by
  refine filter_eq_nil_iff.mpr fun b hb => ?_
  simpa using fun he : b.backfilleePtr = j => hj (he ▸ mem_map_of_mem hb)

theorem removeNOccuranceOfHost_count_lt (hn : num ≠ 0) (hmem : hp ∈ hPtr) :
    (removeNOccuranceOfHost hp num hPtr).count hp < hPtr.count hp := by
  induction hPtr with
  | nil => cases hmem
  | cons y hPtr ih =>
    rw [removeNOccuranceOfHost]
    by_cases hy : y = hp
    · obtain ⟨k, rfl⟩ := Nat.exists_eq_succ_of_ne_zero hn
      rw [if_pos hy, hy, drop_succ_cons, count_cons_self]
      exact Nat.lt_succ_of_le ((drop_sublist k hPtr).count_le hp)
    · rw [if_neg hy, count_cons_of_ne hy, count_cons_of_ne hy]
      exact ih ((mem_cons.mp hmem).resolve_left fun he => hy he.symm)

theorem Taking.job (h : Taking s0 s hp rest bs) (j : JobRef) : Rearranged (s0.jobs j) (s.jobs j) ∧
    (s.jobs j).hPtr.Sublist (s0.jobs j).hPtr ∧ (s.jobs j).phase = (s0.jobs j).phase := by
  by_cases hj : j ∈ bs.map (·.backfilleePtr)
  · obtain ⟨-, ⟨hr, -, hs, -⟩⟩ := h.trail j hj
    refine ⟨hr, hs, ?_⟩
    obtain ⟨l, r, t, heq⟩ := hr
    rw [heq]
    rfl
  · rw [h.around.other j hj]
    exact ⟨.refl _, .refl _, rfl⟩

theorem Taking.snapshot (h : Taking s0 s hp (j :: rest) bs)
    (hs : l.Sublist (s.jobs j).hPtr) (hlt : l.length < (s.jobs j).hPtr.length) :
    Trail (s0.jobs j) (JData.anew now l (s.jobs j)) (snapshotsOf (bs ++ [⟨j, n, (s.jobs j).hPtr⟩]) j) := by
  obtain ⟨hr, hold, -⟩ := h.job j
  refine ⟨hr.anew now l, ?_, ?_, ⟨j, n, (s.jobs j).hPtr⟩, ?_, ?_, ?_⟩
  · rw [JData.anew_reserve, JData.anew_hPtr]
  · rw [JData.anew_hPtr]
    exact hs.trans hold
  · rw [snapshotsOf_append, if_pos rfl, List.getLast?_concat]
  · rw [JData.anew_hPtr]
    exact hlt
  · rw [snapshotsOf_append, if_pos rfl, length_append, length_singleton]
    by_cases hj : j ∈ bs.map (·.backfilleePtr)
    · -- it has lost slots before
      obtain ⟨b, hb, hf, hlast⟩ := (h.trail j hj).2.last
      refine .inr ⟨?_, by omega⟩
      rcases hlast with ⟨heq, -⟩ | ⟨hl, -⟩
      · rwa [← heq]
      · exact hf.trans hl
    · rw [h.around.other j hj, snapshotsOf_eq_nil hj]
      exact .inl ⟨rfl, rfl⟩

theorem turnsOf_moved (ho : ∀ i ∈ rest, s'.jobs i = s.jobs i)
    (hl : (s'.jobs j).hPtr.count hp < (s.jobs j).hPtr.count hp) (back : Prop) [Decidable back] :
    turnsOf s' hp (if rest = [] then [] else rest ++ if back then [j] else []) < turnsOf s hp (j :: rest) := by
  have hs : (rest.map fun i => (s'.jobs i).hPtr.count hp) = rest.map fun i => (s.jobs i).hPtr.count hp :=
    map_congr_left fun i hi => by rw [ho i hi]
  unfold turnsOf
  rw [length_cons, map_cons, sum_cons]
  split
  · simp
  · rw [length_append, map_append, sum_append, hs]
    split
    · rw [map_singleton, sum_singleton, length_singleton]
      omega
    · rw [length_nil, map_nil, sum_nil]
      omega

/-- One backfillee gives up slots: where its entry goes, and what is left of the loop. -/
theorem Taking.anew (C : Config) (now : Int) (h : Taking s0 s hp (j :: rest) bs)
    (hs : l.Sublist (s.jobs j).hPtr) (hmem : hp ∈ (s.jobs j).hPtr) :
    Kept (reserveAnew C now j l s) ∧ Around {j} s (reserveAnew C now j l s) ∧
      (reserveAnew C now j l s).jobs j = JData.anew now l (s.jobs j) ∧
      ∃ pre, (s.hosts hp).pxyRsvJL = pre ++ j :: rest ∧
        ((reserveAnew C now j l s).hosts hp).pxyRsvJL = pre ++ rest ++ (if hp ∈ l then [j] else []) ∧
        fromNext rest ((reserveAnew C now j l s).hosts hp).pxyRsvJL =
          if rest = [] then [] else rest ++ if hp ∈ l then [j] else [] := by
  obtain ⟨hl, hpend, hres⟩ := h.lends j mem_cons_self
  have hloc : (s.hosts hp).remote = false := h.kept.books.placed j hl hp hmem
  obtain ⟨hk, ha, hj⟩ := reserveAnew_spec C now h.kept hl hpend (fun hr => by simp [hres] at hr)
    (fun x hx => h.kept.books.placed j hl x (hs.subset hx))
    ((Int.ofNat_le.mpr hs.length_le).trans (Kept.reserved_le h.kept hl hpend hres))
  have hlist := reserveAnew_pxyRsvJL C now hpend hres hloc h.nodup hmem l
  obtain ⟨pre, he⟩ := h.entries
  have hn := h.nodup
  rw [he] at hn
  obtain ⟨hera, hnext⟩ := fromNext_erase hn (if hp ∈ l then [j] else [])
  rw [he, hera] at hlist
  exact ⟨hk, ha, hj, pre, he, hlist, by rw [hlist, hnext]⟩

theorem Taking.turn (C : Config) (now : Int) (h : Taking s0 s hp (j :: rest) bs) (hn : n ≠ 0)
    (hle : n ≤ (s.jobs j).hPtr.count hp) :
    Taking s0 (reserveAnew C now j (removeNOccuranceOfHost hp n (s.jobs j).hPtr) s)
    hp (fromNext rest ((reserveAnew C now j (removeNOccuranceOfHost hp n (s.jobs j).hPtr) s).hosts hp).pxyRsvJL)
    (bs ++ [⟨j, n, (s.jobs j).hPtr⟩]) ∧ turnsOf (reserveAnew C now j (removeNOccuranceOfHost hp n (s.jobs j).hPtr) s)
    hp (fromNext rest ((reserveAnew C now j (removeNOccuranceOfHost hp n (s.jobs j).hPtr) s).hosts hp).pxyRsvJL)
    < turnsOf s hp (j :: rest) := by
  obtain ⟨hl, hpend, hres⟩ := h.lends j mem_cons_self
  have hmem : hp ∈ (s.jobs j).hPtr := count_pos_iff.mp (by omega)
  have hc := removeNOccuranceOfHost_count_lt hn hmem
  have hlen := removeNOccuranceOfHost_length hle
  have hs := removeNOccuranceOfHost_sublist hp n (s.jobs j).hPtr
  generalize removeNOccuranceOfHost hp n (s.jobs j).hPtr = l at hc hlen hs ⊢
  obtain ⟨hk, ha, hj, pre, he, hlist, hnext⟩ := h.anew C now hs hmem
  have hn := h.nodup
  rw [he] at hn
  rw [hnext]
  generalize reserveAnew C now j l s = s' at hk ha hj hlist ⊢
  have ho : ∀ i, i ≠ j → s'.jobs i = s.jobs i := fun i hi => ha.other i hi
  have hr : ∀ i ∈ rest, i ≠ j := by
    rintro i hi rfl
    exact (nodup_cons.mp (Nodup.of_append_right hn)).1 hi
  have hb : hp ∈ l → Lends s' j := fun hmem' => by
    refine ⟨ha.live ▸ hl, ?_, ?_⟩
    · rw [hj, JData.anew_phase]
      exact hpend
    · rw [hj, JData.anew_reserve]
      exact ne_nil_of_mem hmem'
  constructor
  · refine ⟨hk, ?_, ?_, ?_, ?_, ?_, ?_⟩
    · refine (h.around.mono fun i hi => ?_).trans (ha.mono ?_)
      · rw [map_append]
        exact mem_append_left _ hi
      · simp
    · by_cases hnil : rest = []
      · exact ⟨s'.hosts hp |>.pxyRsvJL, by rw [if_pos hnil, append_nil]⟩
      · exact ⟨pre, by rw [if_neg hnil, hlist, append_assoc]⟩
    · rw [hlist]
      exact nodup_moved hn _
    · intro i hi
      have hi' : i ∈ rest ++ if hp ∈ l then [j] else [] := by
        split at hi
        · cases hi
        · exact hi
      rcases mem_append.mp hi' with hi' | hi'
      · obtain ⟨hl', hpend', hres'⟩ := h.lends i (mem_cons_of_mem _ hi')
        exact ⟨ha.live ▸ hl', by rw [ho i (hr i hi')]; exact hpend',
          by rw [ho i (hr i hi')]; exact hres'⟩
      · split at hi'
        case isTrue hmem' =>
          rw [mem_singleton.mp hi']
          exact hb hmem'
        case isFalse => cases hi'
    · refine forall_mem_append.mpr ⟨h.snapshots, fun b hb => ?_⟩
      rw [mem_singleton.mp hb]
      exact ⟨(h.job j).2.1, ne_nil_of_mem hmem⟩
    · intro i hi
      by_cases hij : i = j
      · subst hij
        rw [hj]
        refine ⟨?_, h.snapshot hs (by omega)⟩
        by_cases hv : i ∈ bs.map (·.backfilleePtr)
        · exact (h.trail i hv).1
        · rw [h.around.other i hv] at hpend hres
          exact ⟨h.around.live ▸ hl, hpend, hres⟩
      · rw [map_append, mem_append, map_singleton, mem_singleton] at hi
        rw [ho i hij, snapshotsOf_append, if_neg (Ne.symm hij), append_nil]
        exact h.trail i (hi.resolve_right hij)
  · exact turnsOf_moved (fun i hi => ho i (hr i hi)) (by rwa [hj, JData.anew_hPtr]) _

theorem Taking.pass (h : Taking s0 s hp (j :: rest) bs) : Taking s0 s hp rest bs := by
  obtain ⟨pre, he⟩ := h.entries
  exact { h with
    entries := ⟨pre ++ [j], by rw [he, append_assoc, singleton_append]⟩
    lends := fun i hi => h.lends i (mem_cons_of_mem _ hi) }

theorem SlotQuery.backfillSlots_le (q : SlotQuery) (jp : JData) (j : JobRef) :
    q.backfillSlots jp j ≤ jp.hPtr.count q.hp := by
  unfold SlotQuery.backfillSlots
  split
  · exact Nat.zero_le _
  · split
    · exact Nat.zero_le _
    · exact min_le_right _ _

/-- What a job of the list lends at the start. -/
def SlotQuery.lent (q : SlotQuery) (s : Mbd) (j : JobRef) : Nat := q.backfillSlots (s.jobs j) j

/-- What such a job has reserved without the slots it lends. -/
def SlotQuery.left (q : SlotQuery) (s : Mbd) (j : JobRef) : List HRef :=
  removeNOccuranceOfHost q.hp (q.lent s j) (s.jobs j).hPtr

/-- The state in which these jobs have lent their slots. -/
def SlotQuery.without (C : Config) (now : Int) (q : SlotQuery) (s0 : Mbd) : List JobRef → Mbd → Mbd
  | [], s => s
  | j :: rest, s =>
    SlotQuery.without C now q s0 rest (if q.lent s0 j = 0 then s else reserveAnew C now j (q.left s0 j) s)

/-- The job lends slots, and others of the host stay reserved. -/
def SlotQuery.Stays (q : SlotQuery) (s : Mbd) (j : JobRef) : Prop := q.lent s j ≠ 0 ∧ q.hp ∈ q.left s j

instance (q : SlotQuery) (s : Mbd) : DecidablePred (q.Stays s) := fun _ => inferInstanceAs (Decidable (_ ∧ _))

/-- A walk that meets no job again: each entry is taken once, as it was at the start. -/
theorem takeSlots_once (C : Config) (now : Int) (q : SlotQuery) (fuel : Nat) (h : Taking s0 s q.hp rest bs)
    (hnew : ∀ j ∈ rest, s.jobs j = s0.jobs j) (hgo : ∀ j ∈ rest.dropLast, ¬ q.Stays s0 j)
    (hr : takeSlots C now q fuel rest s bs = some (s₁, bs₁)) : s₁ = q.without C now s0 rest s ∧
      bs₁.map (·.backfilleePtr) = bs.map (·.backfilleePtr) ++ rest.filter (q.lent s0 · ≠ 0) := by
  induction fuel generalizing s rest bs with
  | zero => cases hr
  | succ fuel ih =>
    cases rest with
    | nil =>
      obtain ⟨rfl, rfl⟩ : s = s₁ ∧ bs = bs₁ := by simpa [takeSlots] using hr
      simp [SlotQuery.without]
    | cons j rest =>
      have hj : q.backfillSlots (s.jobs j) j = q.lent s0 j := by rw [hnew j mem_cons_self, SlotQuery.lent]
      have hgo' : ∀ i ∈ rest.dropLast, ¬ q.Stays s0 i := fun i hi => hgo i (by
        cases rest with
        | nil => cases hi
        | cons => exact mem_cons_of_mem _ hi)
      rw [takeSlots] at hr
      by_cases hn : q.lent s0 j = 0
      · rw [if_pos (hj.trans hn)] at hr
        simpa [SlotQuery.without, hn] using ih h.pass (fun i hi => hnew i (mem_cons_of_mem _ hi)) hgo' hr
      · rw [if_neg (hj ▸ hn)] at hr
        have hle := hj ▸ q.backfillSlots_le (s.jobs j) j
        have hl : removeNOccuranceOfHost q.hp (q.backfillSlots (s.jobs j) j) (s.jobs j).hPtr = q.left s0 j := by
          rw [hj, hnew j mem_cons_self, SlotQuery.left]
        have hmem : q.hp ∈ (s.jobs j).hPtr := count_pos_iff.mp (by omega)
        obtain ⟨htak, -⟩ := h.turn C now (hj ▸ hn) (q.backfillSlots_le _ j)
        obtain ⟨-, ha, -, pre, he, -, hnext⟩ :=
          h.anew C now (removeNOccuranceOfHost_sublist q.hp (q.backfillSlots (s.jobs j) j) _) hmem
        dsimp only at hr
        have hrest : (if rest = [] then [] else rest ++ if q.hp ∈ q.left s0 j then [j] else []) = rest := by
          split
          · exact Eq.symm ‹_›
          case isFalse hne =>
            have hno : q.hp ∉ q.left s0 j := fun hmem => hgo j (by
              cases rest with
              | nil => exact absurd rfl hne
              | cons => exact mem_cons_self) ⟨hn, hmem⟩
            rw [if_neg hno, append_nil]
        rw [hl] at hnext htak ha hr
        rw [hnext, hrest] at hr htak
        have hnodup := h.nodup
        rw [he] at hnodup
        have hother : ∀ i ∈ rest, i ≠ j := by
          rintro i hi rfl
          exact (nodup_cons.mp (Nodup.of_append_right hnodup)).1 hi
        obtain ⟨hs, hbs⟩ := ih htak (fun i hi => (ha.other i (hother i hi)).trans (hnew i (mem_cons_of_mem _ hi))) hgo' hr
        refine ⟨by rw [hs, SlotQuery.without, if_neg hn], ?_⟩
        rw [hbs, map_append, filter_cons_of_pos (by simpa using hn), append_assoc]
        rfl

theorem takeSlots_extends (C : Config) (now : Int) (q : SlotQuery) (fuel : Nat)
    (hr : takeSlots C now q fuel rest s bs = some (s₁, bs₁)) : bs <+: bs₁ := by
  induction fuel generalizing s rest bs with
  | zero => cases hr
  | succ fuel ih =>
    cases rest with
    | nil =>
      obtain ⟨-, rfl⟩ : s = s₁ ∧ bs = bs₁ := by simpa [takeSlots] using hr
      exact prefix_rfl
    | cons j rest =>
      rw [takeSlots] at hr
      dsimp only at hr
      split at hr
      · exact ih hr
      · exact (prefix_append _ _).trans (ih hr)

/-- The turn of an entry that lends, for the others of the list. -/
theorem Taking.next (C : Config) (now : Int) (q : SlotQuery) (h : Taking s0 s q.hp (i :: rest) bs)
    (hn : q.backfillSlots (s.jobs i) i ≠ 0) :
    let l := removeNOccuranceOfHost q.hp (q.backfillSlots (s.jobs i) i) (s.jobs i).hPtr
    (∀ j, j ≠ i → (reserveAnew C now i l s).jobs j = s.jobs j) ∧
      ((reserveAnew C now i l s).jobs i).hPtr = l ∧
      fromNext rest ((reserveAnew C now i l s).hosts q.hp).pxyRsvJL =
        if rest = [] then [] else rest ++ if q.hp ∈ l then [i] else [] := by
  intro l
  have hle := q.backfillSlots_le (s.jobs i) i
  have hmem : q.hp ∈ (s.jobs i).hPtr := count_pos_iff.mp (by omega)
  obtain ⟨-, ha, hi, -, -, -, hnext⟩ := h.anew C now (removeNOccuranceOfHost_sublist q.hp _ _ : l.Sublist _) hmem
  exact ⟨fun j hj => ha.other j hj, by rw [hi, JData.anew_hPtr], hnext⟩

/-- An entry that lends gets a snapshot when the loop comes to it. -/
theorem takeSlots_met (C : Config) (now : Int) (q : SlotQuery) (fuel : Nat) (h : Taking s0 s q.hp rest bs)
    (hj : j ∈ rest) (hlent : q.backfillSlots (s.jobs j) j ≠ 0)
    (hr : takeSlots C now q fuel rest s bs = some (s₁, bs₁)) :
    (bs.map (·.backfilleePtr)).count j < (bs₁.map (·.backfilleePtr)).count j := by
  induction fuel generalizing s rest bs with
  | zero => cases hr
  | succ fuel ih =>
    cases rest with
    | nil => cases hj
    | cons i rest =>
      rw [takeSlots] at hr
      dsimp only at hr
      by_cases hij : j = i
      · subst hij
        rw [if_neg hlent] at hr
        have hle := ((takeSlots_extends C now q fuel hr).map (·.backfilleePtr)).sublist.count_le j
        rw [map_append, count_append, map_singleton, count_singleton_self] at hle
        omega
      · have hj' := (mem_cons.mp hj).resolve_left hij
        by_cases hn : q.backfillSlots (s.jobs i) i = 0
        · rw [if_pos hn] at hr
          exact ih h.pass hj' hlent hr
        · rw [if_neg hn] at hr
          obtain ⟨ho, -, hnext⟩ := h.next C now q hn
          have hmem : j ∈ fromNext rest ((reserveAnew C now i (removeNOccuranceOfHost q.hp
              (q.backfillSlots (s.jobs i) i) (s.jobs i).hPtr) s).hosts q.hp).pxyRsvJL := by
            rw [hnext, if_neg (ne_nil_of_mem hj')]
            exact mem_append_left _ hj'
          have hlt := ih (h.turn C now hn (q.backfillSlots_le _ i)).1 hmem (by rwa [ho j hij]) hr
          rwa [map_append, count_append, map_singleton, count_singleton, if_neg (by simpa using Ne.symm hij),
            add_zero] at hlt

theorem SlotQuery.Stays.lends_again {q : SlotQuery} {jp : JData} (h : q.Stays s j) (hl : jp.hPtr = q.left s j) : q.backfillSlots jp j ≠ 0 := by
  obtain ⟨hlent, hmem⟩ := h
  unfold SlotQuery.lent SlotQuery.backfillSlots at hlent
  have hpos : 0 < jp.hPtr.count q.hp := by
    rw [hl]
    exact count_pos_iff.mpr hmem
  unfold SlotQuery.backfillSlots
  split at hlent
  · exact absurd rfl hlent
  case isFalse hearly =>
    rw [if_neg hearly]
    split at hlent
    · exact absurd rfl hlent
    · omega

/-- An entry that stays, unless it is the last one, comes back behind the others and lends again. -/
theorem takeSlots_again (C : Config) (now : Int) (q : SlotQuery) (fuel : Nat) (h : Taking s0 s q.hp rest bs)
    (hj : j ∈ rest.dropLast) (hnew : s.jobs j = s0.jobs j) (hstays : q.Stays s0 j)
    (hr : takeSlots C now q fuel rest s bs = some (s₁, bs₁)) : 2 ≤ (bs₁.map (·.backfilleePtr)).count j := by
  induction fuel generalizing s rest bs with
  | zero => cases hr
  | succ fuel ih =>
    cases rest with
    | nil => cases hj
    | cons i rest =>
      have hne : rest ≠ [] := by
        rintro rfl
        cases hj
      rw [dropLast_cons_of_ne_nil hne] at hj
      rw [takeSlots] at hr
      dsimp only at hr
      by_cases hij : j = i
      · subst hij
        have hlent : q.backfillSlots (s.jobs j) j ≠ 0 := hnew ▸ hstays.1
        have hleft : removeNOccuranceOfHost q.hp (q.backfillSlots (s.jobs j) j) (s.jobs j).hPtr = q.left s0 j := by
          rw [SlotQuery.left, SlotQuery.lent, hnew]
        rw [if_neg hlent] at hr
        obtain ⟨-, hj', hnext⟩ := h.next C now q hlent
        have htak := (h.turn C now hlent (q.backfillSlots_le _ j)).1
        rw [hleft] at hr hj' hnext htak
        have hmem : j ∈ fromNext rest ((reserveAnew C now j (q.left s0 j) s).hosts q.hp).pxyRsvJL := by
          rw [hnext, if_neg hne, if_pos hstays.2]
          simp
        have hlt := takeSlots_met C now q fuel htak hmem (hstays.lends_again hj') hr
        rw [map_append, count_append, map_singleton, count_singleton_self] at hlt
        omega
      · have hj' := (mem_cons.mp hj).resolve_left hij
        by_cases hn : q.backfillSlots (s.jobs i) i = 0
        · rw [if_pos hn] at hr
          exact ih h.pass hj' hnew hr
        · rw [if_neg hn] at hr
          obtain ⟨ho, -, hnext⟩ := h.next C now q hn
          refine ih (h.turn C now hn (q.backfillSlots_le _ i)).1 ?_ ((ho j hij).trans hnew) hr
          rw [hnext, if_neg hne]
          split
          · rw [dropLast_concat]
            exact mem_of_mem_dropLast hj'
          · rwa [append_nil]

theorem takeSlots_taking (C : Config) (now : Int) (q : SlotQuery) (fuel : Nat) (h : Taking s0 s q.hp rest bs)
    (hf : turnsOf s q.hp rest < fuel) :
    ∃ s₁ bs1, takeSlots C now q fuel rest s bs = some (s₁, bs1) ∧ Taking s0 s₁ q.hp [] bs1 := by
  induction fuel generalizing s rest bs with
  | zero => exact absurd hf (Nat.not_lt_zero _)
  | succ fuel ih =>
    cases rest with
    | nil => exact ⟨s, bs, rfl, h⟩
    | cons j rest =>
      rw [takeSlots]
      by_cases hn : q.backfillSlots (s.jobs j) j = 0
      · rw [if_pos hn]
        refine ih h.pass ?_
        simp only [turnsOf, length_cons, map_cons, sum_cons] at hf ⊢
        omega
      · rw [if_neg hn]
        obtain ⟨hnext, hl⟩ := h.turn C now hn (q.backfillSlots_le _ j)
        exact ih hnext (by omega)

end

section

variable {s0 s : Mbd} {b : Snapshot}

structure Givable (s0 s : Mbd) (b : Snapshot) : Prop where
  lends : Lends s0 b.backfilleePtr
  sublist : b.hPtr.Sublist (s0.jobs b.backfilleePtr).hPtr
  slots : b.hPtr ≠ []
  record : Rearranged (s0.jobs b.backfilleePtr) (s.jobs b.backfilleePtr)
  reserve : (s.jobs b.backfilleePtr).jStatus.reserve = true ↔ (s.jobs b.backfilleePtr).hPtr ≠ []

theorem giveSlotsBack_eq
    (hres : (s.jobs b.backfilleePtr).jStatus.reserve = true ↔ (s.jobs b.backfilleePtr).hPtr ≠ []) (hb : b.hPtr ≠ []) :
    giveSlotsBack C now s b = reserveAnew C now b.backfilleePtr b.hPtr s := by
  have hf : (if (s.jobs b.backfilleePtr).hPtr ≠ [] then freeReserveSlots b.backfilleePtr s else s) =
      freeReserveSlots b.backfilleePtr s := by
    split
    · rfl
    case isFalse hn =>
      rw [freeReserveSlots, if_pos fun hr => hn (hres.mp hr)]
  unfold giveSlotsBack reserveAnew
  dsimp only
  rw [hf, if_neg hb]

theorem giveSlotsBack_spec (C : Config) (now : Int) (h₀ : Kept s0) (hk : Kept s) (ha : Around Set.univ s0 s)
    (hb : Givable s0 s b) : Kept (giveSlotsBack C now s b) ∧ Around {b.backfilleePtr} s (giveSlotsBack C now s b) ∧
    (giveSlotsBack C now s b).jobs b.backfilleePtr = JData.anew now b.hPtr (s.jobs b.backfilleePtr) := by
  obtain ⟨⟨hl0, hpend0, hres0⟩, hsub, hs, hr, hres⟩ := hb
  rw [giveSlotsBack_eq hres hs]
  have hfit := (Int.ofNat_le.mpr hsub.length_le).trans (Kept.reserved_le h₀ hl0 hpend0 hres0)
  obtain ⟨l, r, t, heq⟩ := hr
  refine reserveAnew_spec C now hk (ha.live ▸ hl0) ?_ ?_ (fun x hx => ?_) ?_
  · rw [heq]
    exact hpend0
  · intro hr
    by_contra hne
    rw [hres.mpr hne] at hr
    cases hr
  · rw [ha.remote]
    exact h₀.books.placed _ hl0 x (hsub.subset hx)
  · rw [heq]
    exact hfit

theorem giveSlotsBack_run (C : Config) (now : Int) (h₀ : Kept s0) (bs : List Snapshot) (hk : Kept s)
    (ha : Around Set.univ s0 s) (hbs : ∀ b ∈ bs, Givable s0 s b) : Kept (bs.foldl (giveSlotsBack C now) s) ∧
      Around {j | j ∈ bs.map (·.backfilleePtr)} s (bs.foldl (giveSlotsBack C now) s) ∧
      ∀ j ∈ bs.map (·.backfilleePtr), Rearranged (s0.jobs j) ((bs.foldl (giveSlotsBack C now) s).jobs j) ∧
        ((bs.foldl (giveSlotsBack C now) s).jobs j).jStatus.reserve = true ∧
        ∃ b, (snapshotsOf bs j).getLast? = some b ∧ ((bs.foldl (giveSlotsBack C now) s).jobs j).hPtr = b.hPtr := by
  induction bs generalizing s with
  | nil => exact ⟨hk, .refl _ s, by simp⟩
  | cons b bs ih =>
    rw [forall_mem_cons] at hbs
    obtain ⟨hk1, ha1, hj1⟩ := giveSlotsBack_spec C now h₀ hk ha hbs.1
    have hrec1 : Rearranged (s0.jobs b.backfilleePtr) ((giveSlotsBack C now s b).jobs b.backfilleePtr) := by
      rw [hj1]
      exact hbs.1.record.anew now b.hPtr
    have hr1 : ((giveSlotsBack C now s b).jobs b.backfilleePtr).jStatus.reserve = true := by
      rw [hj1, JData.anew_reserve]
      exact hbs.1.slots
    have hhPtr1 : ((giveSlotsBack C now s b).jobs b.backfilleePtr).hPtr = b.hPtr := by rw [hj1, JData.anew_hPtr]
    have hbs1 : ∀ b' ∈ bs, Givable s0 (giveSlotsBack C now s b) b' := by
      intro b' hb'
      obtain ⟨hl, hsub, hslo, hrec, hr⟩ := hbs.2 b' hb'
      by_cases hs : b'.backfilleePtr = b.backfilleePtr
      · refine ⟨hl, hsub, hslo, hs ▸ hrec1, ?_⟩
        rw [hs, hr1, hhPtr1]
        simp [hbs.1.slots]
      · have ho := ha1.other b'.backfilleePtr hs
        exact ⟨hl, hsub, hslo, by rw [ho]; exact hrec, by rw [ho]; exact hr⟩
    obtain ⟨hk', ha', hj'⟩ := ih hk1 (ha.trans (ha1.mono (Set.subset_univ _))) hbs1
    rw [foldl_cons]
    refine ⟨hk', (ha1.mono ?_).trans (ha'.mono ?_), fun i hi => ?_⟩
    · rintro i rfl
      exact mem_cons_self
    · exact fun i hi => mem_cons_of_mem _ hi
    by_cases hl : i ∈ bs.map (·.backfilleePtr)
    · obtain ⟨hrec, hr, b', hb', hhPtr⟩ := hj' i hl
      refine ⟨hrec, hr, b', ?_, hhPtr⟩
      rw [snapshotsOf, filter_cons]
      split
      · rw [List.getLast?_cons, show (List.filter _ bs).getLast? = some b' from hb']
        rfl
      · exact hb'
    · obtain rfl : i = b.backfilleePtr := (mem_cons.mp hi).resolve_right hl
      rw [ha'.other _ hl]
      refine ⟨hrec1, hr1, b, ?_, hhPtr1⟩
      rw [snapshotsOf, filter_cons_of_pos (by simp), show List.filter _ bs = [] from snapshotsOf_eq_nil hl]
      rfl

end

structure ReservationsKept (s s' : Mbd) : Prop where
  hosts : ∀ j, Lends s j → (s'.jobs j).hPtr.Perm (s.jobs j).hPtr ∧ (s'.jobs j).numHostPtr = (s.jobs j).numHostPtr ∧
    (s'.jobs j).jStatus.reserve = true
  counts : SameCounts s s'

section

variable {q : SlotQuery}

theorem SlotQuery.answer_mbd (C : Config) (now : Int) (q : SlotQuery) (s : Mbd) (bs : List Snapshot) :
    (q.answer C now s bs).mbd = if q.Enough s then bs.foldl (giveSlotsBack C now) s else s := by
  unfold SlotQuery.answer
  by_cases h1 : 1 > (q.numSlots s).1
  · rw [if_pos h1, if_neg fun h : q.Enough s => not_lt.mpr h.1 h1]
  by_cases h2 : 1 > (q.numSlots s).2
  · rw [if_neg h1, if_pos h2, if_neg fun h : q.Enough s => not_lt.mpr h.2.1 h2]
  by_cases h3 : (q.getHostJobSlots1 s).1 = 0
  · rw [if_neg h1, if_neg h2, if_pos h3, if_neg fun h : q.Enough s => h.2.2 h3]
  · rw [if_neg h1, if_neg h2, if_neg h3, if_pos (show q.Enough s from ⟨not_lt.mp h1, not_lt.mp h2, h3⟩)]

theorem reservationsKept_of_same (h : Kept s) (h' : Kept s') (ha : Around Set.univ s s')
    (hs : ∀ j, ∃ t, s'.jobs j = { s.jobs j with reserveTime := t }) : ReservationsKept s s' := by
  constructor
  · intro j hj
    obtain ⟨t, ht⟩ := hs j
    rw [ht]
    exact ⟨.refl _, rfl, hj.reserve⟩
  · refine h.sameCounts h' ha.toSamePlaces ha.live fun j _ => ?_
    obtain ⟨t, ht⟩ := hs j
    rw [ht]
    exact ⟨rfl, rfl, rfl, rfl, rfl⟩

theorem not_reservationsKept (hj : Lends s j) (hl : (s'.jobs j).hPtr.length < (s.jobs j).hPtr.length) :
    ¬ ReservationsKept s s' := fun hkept => by
  have hperm := (hkept.hosts j hj).1.length_eq
  omega

theorem snapshotsOf_length (bs : List Snapshot) (j : JobRef) :
    (snapshotsOf bs j).length = (bs.map (·.backfilleePtr)).count j := by
  rw [count_eq_countP, countP_map, countP_eq_length_filter]
  rfl

/-- All is given back at the end of the call exactly if no job has two snapshots. -/
theorem Taking.restored_iff (C : Config) (now : Int) (h : Kept s) (ht : Taking s s₁ q.hp [] bs) :
    ReservationsKept s (bs.foldl (giveSlotsBack C now) s₁) ↔ (bs.map (·.backfilleePtr)).Nodup := by
  have hg : ∀ b ∈ bs, Givable s s₁ b := by
    intro b hb
    obtain ⟨hlen, ⟨hrec, hres, -, -⟩⟩ := ht.trail _ (mem_map_of_mem hb)
    exact ⟨hlen, (ht.snapshots b hb).1, (ht.snapshots b hb).2, hrec, hres⟩
  have ha1 : Around Set.univ s s₁ := ht.around.mono (Set.subset_univ _)
  obtain ⟨hk, ha, hjobs⟩ := giveSlotsBack_run C now h bs ht.kept ha1 hg
  constructor
  · -- a job with two snapshots gets back what it had at the second one
    intro hkept
    rw [nodup_iff_count_le_one]
    intro j
    by_contra hc
    have hj : j ∈ bs.map (·.backfilleePtr) := count_pos_iff.mp (by omega)
    obtain ⟨hlen, ⟨-, -, -, b, hb, -, hlast⟩⟩ := ht.trail j hj
    obtain ⟨-, -, b', hb', hhPtr⟩ := hjobs j hj
    obtain rfl : b' = b := Option.some.inj (hb'.symm.trans hb)
    have htwo := snapshotsOf_length bs j
    rcases hlast with ⟨-, ho⟩ | ⟨hl, -⟩
    · omega
    · exact not_reservationsKept hlen (by rwa [hhPtr]) hkept
  · intro hn
    refine reservationsKept_of_same h hk (ha1.trans (ha.mono (Set.subset_univ _))) fun j => ?_
    by_cases hj : j ∈ bs.map (·.backfilleePtr)
    · obtain ⟨hlen, ⟨-, -, -, b, hb, -, hlast⟩⟩ := ht.trail j hj
      obtain ⟨⟨l, r, t, hrec⟩, hres, b', hb', hhPtr⟩ := hjobs j hj
      obtain rfl : b' = b := Option.some.inj (hb'.symm.trans hb)
      have ho := snapshotsOf_length bs j
      have hle := nodup_iff_count_le_one.mp hn j
      have hall : b'.hPtr = (s.jobs j).hPtr := by
        rcases hlast with ⟨hall, -⟩ | ⟨-, htwo⟩
        · exact hall
        · omega
      rw [hrec] at hres hhPtr
      refine ⟨t, ?_⟩
      have hl : l = (s.jobs j).hPtr := hhPtr.trans hall
      have hr : r = (s.jobs j).jStatus.reserve := Eq.trans hres hlen.reserve.symm
      rw [hrec, hl, hr]
    · exact ⟨(s.jobs j).reserveTime, by rw [ha.other j hj, ht.around.other j hj]⟩

/-- The jobs that can lend slots, in the order of the list. -/
def SlotQuery.lenders (q : SlotQuery) (s : Mbd) : List JobRef := if q.canBackfill then (s.hosts q.hp).pxyRsvJL else []

/-- Nothing is lent; or no job but the last one of the list stays in it, and without the slots that are lent there are
some left for the job. -/
def SlotQuery.Restores (C : Config) (now : Int) (q : SlotQuery) (s : Mbd) : Prop :=
  (∀ j ∈ q.lenders s, q.lent s j = 0) ∨
    (∀ j ∈ (q.lenders s).dropLast, ¬ q.Stays s j) ∧ q.Enough (q.without C now s (q.lenders s) s)

instance (C : Config) (now : Int) (q : SlotQuery) (s : Mbd) : Decidable (q.Restores C now s) :=
  inferInstanceAs (Decidable (_ ∨ _))

theorem Taking.start (h : Kept s) (hnodup : (s.hosts q.hp).pxyRsvJL.Nodup)
    (hlends : ∀ j ∈ (s.hosts q.hp).pxyRsvJL, Lends s j) : Taking s s q.hp (q.lenders s) [] := by
  have hentries : ∃ pre, (s.hosts q.hp).pxyRsvJL = pre ++ q.lenders s := by
    unfold SlotQuery.lenders
    split
    · exact ⟨[], rfl⟩
    · exact ⟨_, (append_nil _).symm⟩
  obtain ⟨pre, hpre⟩ := hentries
  have hr : ∀ j ∈ q.lenders s, Lends s j := fun j hj => hlends j (hpre ▸ mem_append_right pre hj)
  exact ⟨h, .refl _ s, ⟨pre, hpre⟩, hnodup, hr, by simp, by simp⟩

theorem SlotQuery.taken_eq (C : Config) (now : Int) (q : SlotQuery) (s : Mbd) :
    q.taken C now s = takeSlots C now q (turnsOf s q.hp (q.lenders s) + 1) (q.lenders s) s [] := by
  unfold SlotQuery.taken SlotQuery.lenders
  split <;> rfl

/-- What is lent at the start decides whether the loop takes nothing, or each job once. -/
theorem Taking.once_iff (C : Config) (now : Int) (h : Taking s s q.hp rest [])
    (hr : takeSlots C now q fuel rest s [] = some (s₁, bs)) :
    (bs = [] ↔ ∀ j ∈ rest, q.lent s j = 0) ∧
      ((bs.map (·.backfilleePtr)).Nodup ↔ ∀ j ∈ rest.dropLast, ¬ q.Stays s j) ∧
      ((∀ j ∈ rest.dropLast, ¬ q.Stays s j) → s₁ = q.without C now s rest s) := by
  obtain ⟨pre, he⟩ := h.entries
  have hn := h.nodup
  rw [he] at hn
  have honce := fun hgo => takeSlots_once C now q fuel h (fun _ _ => rfl) hgo hr
  refine ⟨⟨?_, fun hzero => ?_⟩, ⟨fun hnodup j hj hstays => ?_, fun hgo => ?_⟩, fun hgo => (honce hgo).1⟩
  · rintro rfl j hj
    by_contra hlent
    exact absurd (takeSlots_met C now q fuel h hj hlent hr) (lt_irrefl _)
  · have hbs := (honce fun j hj hstays => hstays.1 (hzero j (mem_of_mem_dropLast hj))).2
    rw [filter_eq_nil_iff.mpr fun j hj => by simp [hzero j hj]] at hbs
    exact map_eq_nil_iff.mp hbs
  · have htwo := takeSlots_again C now q fuel h hj rfl hstays hr
    have hone := nodup_iff_count_le_one.mp hnodup j
    omega
  · rw [(honce hgo).2]
    exact (Nodup.of_append_right hn).filter _

/-- The call ends, and all is as before exactly if the jobs and the host before it are such. -/
theorem getHostJobSlots_restores_iff (C : Config) (now : Int) (q : SlotQuery) (h : Kept s)
    (hnodup : (s.hosts q.hp).pxyRsvJL.Nodup) (hlends : ∀ j ∈ (s.hosts q.hp).pxyRsvJL, Lends s j) :
    ∃ r, getHostJobSlots C now q s = some r ∧ (ReservationsKept s r.mbd ↔ q.Restores C now s) := by
  have hstart : Taking s s q.hp (q.lenders s) [] := .start h hnodup hlends
  obtain ⟨s₁, bs, htak, ht⟩ := takeSlots_taking C now q _ hstart (Nat.lt_succ_self _)
  obtain ⟨hnil, hdup, hwithout⟩ := hstart.once_iff C now htak
  refine ⟨q.answer C now s₁ bs, by rw [getHostJobSlots, SlotQuery.taken_eq, htak]; rfl, ?_⟩
  have hi := ht.restored_iff C now h
  rw [hdup] at hi
  rw [SlotQuery.answer_mbd, SlotQuery.Restores, ← hnil]
  cases bs with
  | nil =>
    refine iff_of_true ?_ (.inl rfl)
    have hkept : ReservationsKept s s₁ := hi.mpr (hdup.mp nodup_nil)
    split <;> exact hkept
  | cons b bs =>
    by_cases he : q.Enough s₁
    · rw [if_pos he, hi]
      refine ⟨fun hgo => .inr ⟨hgo, hwithout hgo ▸ he⟩, ?_⟩
      rintro (hn | ⟨hgo, -⟩)
      · cases hn
      · exact hgo
    · rw [if_neg he]
      refine iff_of_false ?_ ?_
      · obtain ⟨hlends', ⟨-, -, -, b', -, hl, hlast⟩⟩ := ht.trail b.backfilleePtr mem_cons_self
        refine not_reservationsKept hlends' ?_
        rcases hlast with ⟨ha, -⟩ | ⟨hf, -⟩
        · rwa [← ha]
        · exact hl.trans hf
      · rintro (hn | ⟨hgo, he'⟩)
        · cases hn
        · exact he (hwithout hgo ▸ he')

end

/-- Two pending jobs; job 0 has reserved two slots of host 1, job 1 one slot. -/
def twoReserve : Mbd := Run.run (step { hasBackfillPolicy := true })
  [.newJob 1 false 0 1 0 { queue := 0, maxNumProcessors := 2 },
    .newJob 2 false 1 2 0 { queue := 0, maxNumProcessors := 1 }, .allocHosts 0 2 [(1, 2)], .reserveSlots 3 0,
    .allocHosts 1 1 [(1, 1)], .reserveSlots 3 1] .blank

def bothAtOnce : SlotQuery where
  hp := 1
  qp := 0
  startsEarly j := j == 1
  candAvail _ := some 2
  getHostJobSlots1 _ := (3, 3)

theorem twoReserve_lends : ∀ j ∈ (twoReserve.hosts 1).pxyRsvJL, Lends twoReserve j := by
  have hlist : (twoReserve.hosts 1).pxyRsvJL = [0, 1] := by decide +kernel
  have h0 : Lends twoReserve 0 := ⟨by decide +kernel, by decide +kernel, by decide +kernel⟩
  have h1 : Lends twoReserve 1 := ⟨by decide +kernel, by decide +kernel, by decide +kernel⟩
  exact forall_mem_cons.mpr ⟨h0, forall_mem_singleton.mpr h1⟩

theorem getHostJobSlots_restores_bothAtOnce :
    ∃ r, getHostJobSlots { hasBackfillPolicy := true } 5 bothAtOnce twoReserve = some r ∧
      ReservationsKept twoReserve r.mbd := by
  have hkept : Kept twoReserve := kept_run Mbd.blank_initial rfl _ (by decide)
  obtain ⟨r, hr, hi⟩ := getHostJobSlots_restores_iff { hasBackfillPolicy := true } 5 bothAtOnce
    hkept (by decide +kernel) twoReserve_lends
  exact ⟨r, hr, hi.mpr (by decide +kernel)⟩

/-- On an early return job 0 loses its reservation; met twice, it gets back what it had in
between. -/
theorem getHostJobSlots_loses : (twoReserve.jobs 0).hPtr = [1, 1] ∧
    (getHostJobSlots { hasBackfillPolicy := true } 5 { bothAtOnce with getHostJobSlots1 := fun _ => (0, 0) } twoReserve).map
      (fun r => (r.numSlots, (r.mbd.jobs 0).hPtr, (r.mbd.jobs 0).jStatus.reserve, (r.mbd.hosts 1).count .numRESERVE)) =
      some (0, [], false, 1) ∧
    (getHostJobSlots { hasBackfillPolicy := true } 5 { bothAtOnce with candAvail := fun _ => some 1 } twoReserve).map
      (fun r => (r.numSlots, (r.mbd.jobs 0).hPtr, (r.mbd.jobs 0).jStatus.reserve, (r.mbd.hosts 1).count .numRESERVE)) =
      some (3, [1], true, 2) := by
  decide +kernel

end OpenLava.Dispatch

import OpenLava.Mbd.ExecCands

/-!
# Slots taken from backfillees

A job that backfills starts on slots that other jobs have reserved. `freeBackfillSlotsFromBackfillee` takes them out of
the arrays of reserved hosts of these jobs, the backfillees.
-/

namespace OpenLava.Dispatch

open List

def removeNOccuranceOfHost (host : HRef) (num : Nat) : List HRef → List HRef
  | [] => []
  | h :: hPtr => if h = host then (h :: hPtr).drop num else h :: removeNOccuranceOfHost host num hPtr

/-- The slots of one host stand together. -/
def Contiguous (hPtr : List HRef) : Prop := ∀ h x, [h, x, h].Sublist hPtr → x = h

theorem contiguous_iff (hPtr : List HRef) : (∀ h ∈ hPtr, ∀ x ∈ hPtr, [h, x, h].Sublist hPtr → x = h) ↔ Contiguous hPtr :=
  ⟨fun ha h x hs => ha h (hs.subset (by simp)) x (hs.subset (by simp)) hs, fun ha h _ x _ => ha h x⟩

instance (hPtr : List HRef) : Decidable (Contiguous hPtr) := decidable_of_iff _ (contiguous_iff hPtr)

section

theorem Contiguous.sublist (h : Contiguous hPtr) (hs : hPtr'.Sublist hPtr) : Contiguous hPtr' :=
  fun x y hxy => h x y (hxy.trans hs)

theorem Contiguous.first (h : Contiguous (host :: hPtr)) :
    ∃ rest, host :: hPtr = replicate ((host :: hPtr).count host) host ++ rest ∧ host ∉ rest := by
  induction hPtr with
  | nil => exact ⟨[], by simp, by simp⟩
  | cons x hPtr ih =>
    by_cases hx : x = host
    · subst hx
      obtain ⟨rest, heq, hn⟩ := ih (h.sublist (sublist_cons_self _ _))
      refine ⟨rest, ?_, hn⟩
      rw [count_cons_self, replicate_succ, cons_append, ← heq]
    · have hn : host ∉ x :: hPtr := by
        intro hmem
        rcases mem_cons.mp hmem with rfl | hmem
        · exact hx rfl
        · refine hx (h host x ?_)
          exact ((singleton_sublist.mpr hmem).cons_cons x).cons_cons host
      refine ⟨x :: hPtr, ?_, hn⟩
      rw [count_cons_self, count_eq_zero_of_not_mem hn]
      rfl

theorem removeNOccuranceOfHost_sublist (host : HRef) (num : Nat) (hPtr : List HRef) :
    (removeNOccuranceOfHost host num hPtr).Sublist hPtr := by
  induction hPtr with
  | nil => exact .slnil
  | cons h hPtr ih =>
    simp only [removeNOccuranceOfHost]
    split
    · exact drop_sublist _ _
    · exact ih.cons_cons h

theorem removeNOccuranceOfHost_count (h : Contiguous hPtr) (hnum : num ≤ hPtr.count host) (x : HRef) :
    (removeNOccuranceOfHost host num hPtr).count x = hPtr.count x - if x = host then num else 0 := by
  induction hPtr with
  | nil => simp [removeNOccuranceOfHost]
  | cons y hPtr ih =>
    simp only [removeNOccuranceOfHost]
    split
    case isTrue hy =>
      subst hy
      obtain ⟨rest, heq, hn⟩ := h.first
      rw [heq] at hnum ⊢
      generalize (y :: hPtr).count y = k at hnum ⊢
      have hk : num ≤ k := by simpa [count_eq_zero_of_not_mem hn] using hnum
      rw [drop_append_of_le_length (by simpa using hk), drop_replicate, count_append, count_append,
        count_replicate, count_replicate]
      by_cases hx : x = y
      · subst hx
        simp [count_eq_zero_of_not_mem hn]
      · have hx' : (y == x) = false := beq_eq_false_iff_ne.mpr fun he => hx he.symm
        simp [hx, hx']
    case isFalse hy =>
      rw [count_cons_of_ne hy] at hnum
      have hr := ih (h.sublist (sublist_cons_self _ _)) hnum
      rw [count_cons, count_cons, hr]
      by_cases hx : x = host
      · subst hx
        have hx' : (y == x) = false := beq_eq_false_iff_ne.mpr hy
        simp [hx']
      · simp [hx]

end

/-- The slots of a backfillee are taken out host by host; `numHostPtr` ends the array. -/
def shrink : List (HRef × Int) → List HRef × Int → List HRef × Int
  | [], r => r
  | p :: slotsList, r =>
    let numHostPtr := r.2 - p.2
    shrink slotsList ((removeNOccuranceOfHost p.1 p.2.toNat r.1).take numHostPtr.toNat, numHostPtr)

def lentOf (slotsList : List (HRef × Int)) (h : HRef) : Int := ((slotsList.filter (·.1 = h)).map (·.2)).sum

section

theorem removeNOccuranceOfHost_length (hn : num ≤ hPtr.count host) :
    (removeNOccuranceOfHost host num hPtr).length + num = hPtr.length := by
  induction hPtr with
  | nil => simpa [removeNOccuranceOfHost] using hn
  | cons y hPtr ih =>
    simp only [removeNOccuranceOfHost]
    split
    · have hle := hn.trans count_le_length
      rw [length_drop]
      omega
    case isFalse hy =>
      rw [count_cons_of_ne hy] at hn
      simp only [length_cons]
      omega

theorem lentOf_cons (p : HRef × Int) (slotsList : List (HRef × Int)) (h : HRef) :
    lentOf (p :: slotsList) h = (if h = p.1 then p.2 else 0) + lentOf slotsList h := by
  unfold lentOf
  by_cases hp : h = p.1
  · simp [hp]
  · have hp' : p.1 ≠ h := fun he => hp he.symm
    simp [hp, hp']

theorem lentOf_nonneg (hpos : ∀ p ∈ slotsList, 0 ≤ p.2) (h : HRef) : 0 ≤ lentOf slotsList h := by
  refine sum_nonneg fun k hk => ?_
  obtain ⟨p, hp, rfl⟩ := mem_map.mp hk
  exact hpos p (mem_of_mem_filter hp)

theorem shrink_spec (slotsList : List (HRef × Int)) (hPtr : List HRef) (hc : Contiguous hPtr)
    (hpos : ∀ p ∈ slotsList, 0 ≤ p.2) (hle : ∀ h, lentOf slotsList h ≤ hPtr.count h) :
    (shrink slotsList (hPtr, hPtr.length)).1.Sublist hPtr ∧
      (∀ h, ((shrink slotsList (hPtr, hPtr.length)).1.count h : Int) = hPtr.count h - lentOf slotsList h) ∧
      (shrink slotsList (hPtr, hPtr.length)).2 = (shrink slotsList (hPtr, hPtr.length)).1.length := by
  induction slotsList generalizing hPtr with
  | nil => exact ⟨.refl _, fun h => by simp [shrink, lentOf], rfl⟩
  | cons p slotsList ih =>
    rw [forall_mem_cons] at hpos
    obtain ⟨k, hk⟩ := Int.eq_ofNat_of_zero_le hpos.1
    have hr := lentOf_nonneg hpos.2
    have hn : k ≤ hPtr.count p.1 := by
      have ho := hle p.1
      have := hr p.1
      rw [lentOf_cons, if_pos rfl] at ho
      omega
    have hl := removeNOccuranceOfHost_length hn
    have hs := removeNOccuranceOfHost_sublist p.1 k hPtr
    have hcou := removeNOccuranceOfHost_count hc hn
    simp only [shrink]
    rw [hk, Int.toNat_natCast, show (hPtr.length : Int) - k = (removeNOccuranceOfHost p.1 k hPtr).length by omega,
      Int.toNat_natCast, take_length]
    have hcou' : ∀ h, ((removeNOccuranceOfHost p.1 k hPtr).count h : Int) = hPtr.count h - if h = p.1 then p.2 else 0 := by
      intro h
      rw [hcou h]
      split_ifs with hh
      · subst hh
        omega
      · omega
    obtain ⟨hs', hcou'', hl'⟩ := ih (removeNOccuranceOfHost p.1 k hPtr) (hc.sublist hs) hpos.2 (fun h => by
      have ho := hle h
      rw [lentOf_cons] at ho
      rw [hcou' h]
      omega)
    refine ⟨hs'.trans hs, fun h => ?_, hl'⟩
    rw [hcou'' h, hcou' h, lentOf_cons]
    ring

end

/-- `struct backfilleeData` -/
structure BackfilleeData where
  backfilleePtr : JobRef
  slotsList : List (HRef × Int)
  deriving DecidableEq, Repr

def addToFreeList (job : JobRef) (slots : HRef × Int) : List BackfilleeData → List BackfilleeData
  | [] => [⟨job, [slots]⟩]
  | d :: ds =>
    if d.backfilleePtr = job then { d with slotsList := d.slotsList ++ [slots] } :: ds
    else d :: addToFreeList job slots ds

def backfilleesOf (es : List ExecCand) : List Backfillee := es.flatMap (·.backfilleeList.getD [])

def JobCands.slotsFrom (jp : JobCands) (b : Backfillee) : HRef × Int :=
  ((jp.cand b.indexInCandHostList).hData, b.backfillSlots)

def backfilleeToFreeList (jp : JobCands) (es : List ExecCand) : List BackfilleeData :=
  (backfilleesOf es).foldl (fun ds b => addToFreeList b.backfilleePtr (jp.slotsFrom b) ds) []

def borrowed (jp : JobCands) (es : List ExecCand) (j : JobRef) (h : HRef) : Int :=
  lentOf (((backfilleesOf es).filter (·.backfilleePtr = j)).map jp.slotsFrom) h

section

def slotsListed (ds : List BackfilleeData) (j : JobRef) : List (HRef × Int) :=
  ((ds.find? (·.backfilleePtr = j)).map (·.slotsList)).getD []

theorem addToFreeList_jobs (job : JobRef) (slots : HRef × Int) (ds : List BackfilleeData) :
    (addToFreeList job slots ds).map (·.backfilleePtr) =
      ds.map (·.backfilleePtr) ++ if job ∈ ds.map (·.backfilleePtr) then [] else [job] := by
  induction ds with
  | nil => rfl
  | cons d ds ih =>
    simp only [addToFreeList]
    by_cases hd : d.backfilleePtr = job
    · simp [hd]
    · have hd' : job ≠ d.backfilleePtr := fun he => hd he.symm
      rw [if_neg hd, map_cons, ih, map_cons, cons_append]
      simp only [mem_cons, hd', false_or]

theorem addToFreeList_listed (job : JobRef) (slots : HRef × Int) (ds : List BackfilleeData) (j : JobRef) :
    slotsListed (addToFreeList job slots ds) j = slotsListed ds j ++ if job = j then [slots] else [] := by
  unfold slotsListed
  induction ds with
  | nil => by_cases hj : job = j <;> simp [addToFreeList, hj]
  | cons d ds ih =>
    simp only [addToFreeList]
    by_cases hd : d.backfilleePtr = job
    · subst hd
      by_cases hj : d.backfilleePtr = j <;> simp [hj]
    · by_cases hj : d.backfilleePtr = j
      · have hne : job ≠ j := fun he => hd (hj.trans he.symm)
        rw [if_neg hd]
        simp [hj, hne]
      · rw [if_neg hd, List.find?_cons_of_neg (by simpa using hj), List.find?_cons_of_neg (by simpa using hj)]
        exact ih

theorem foldl_addToFreeList (jp : JobCands) (bs : List Backfillee) (ds : List BackfilleeData) (hn : (ds.map (·.backfilleePtr)).Nodup) :
    ((bs.foldl (fun ds b => addToFreeList b.backfilleePtr (jp.slotsFrom b) ds) ds).map (·.backfilleePtr)).Nodup ∧
      (∀ j, j ∈ (bs.foldl (fun ds b => addToFreeList b.backfilleePtr (jp.slotsFrom b) ds) ds).map (·.backfilleePtr) ↔
        j ∈ ds.map (·.backfilleePtr) ∨ j ∈ bs.map (·.backfilleePtr)) ∧
      ∀ j, slotsListed (bs.foldl (fun ds b => addToFreeList b.backfilleePtr (jp.slotsFrom b) ds) ds) j =
        slotsListed ds j ++ (bs.filter (·.backfilleePtr = j)).map jp.slotsFrom := by
  induction bs generalizing ds with
  | nil => exact ⟨hn, fun j => by simp, fun j => by simp⟩
  | cons b bs ih =>
    have hj := addToFreeList_jobs b.backfilleePtr (jp.slotsFrom b) ds
    obtain ⟨h1, h2, h3⟩ := ih (addToFreeList b.backfilleePtr (jp.slotsFrom b) ds) (by
      rw [hj]
      split_ifs with hmem
      · simpa using hn
      · exact hn.append (nodup_singleton _) (by simpa using hmem))
    refine ⟨h1, fun j => (h2 j).trans ?_, fun j => (h3 j).trans ?_⟩
    · rw [hj, mem_append, map_cons, mem_cons]
      split_ifs with hmem
      · by_cases hj : j = b.backfilleePtr
        · subst hj
          simp [hmem]
        · simp [hj]
      · simp only [mem_singleton]
        tauto
    · rw [addToFreeList_listed, append_assoc]
      by_cases hj : b.backfilleePtr = j <;> simp [hj]

theorem slotsListed_of_mem (hn : (ds.map (·.backfilleePtr)).Nodup)
    (hd : d ∈ ds) : slotsListed ds d.backfilleePtr = d.slotsList := by
  unfold slotsListed
  induction ds with
  | nil => cases hd
  | cons d' ds ih =>
    rw [map_cons, nodup_cons] at hn
    rcases mem_cons.mp hd with rfl | hd
    · simp
    · have hne : d'.backfilleePtr ≠ d.backfilleePtr := fun he => hn.1 (he ▸ mem_map_of_mem hd)
      rw [List.find?_cons_of_neg (by simpa using hne)]
      exact ih hn.2 hd

end

/-- `freeBackfillSlotsFromBackfillee` for one. -/
def freeSlotsOf (C : Config) (now : Int) (d : BackfilleeData) (s : Mbd) : Mbd :=
  let j := d.backfilleePtr
  let rest := shrink d.slotsList ((s.jobs j).hPtr, (s.jobs j).numHostPtr)
  let s := (freeReserveSlots j s).modJob j fun jp => { jp with hPtr := rest.1 }
  if rest.2 = 0 then s.modJob j fun jp => { jp with hPtr := [], reserveTime := 0 }
  else if rest.2 < 0 then s
  else reserveSlots C now j s

/-- For the execution candidates of a job. -/
def freeBackfillSlotsFromBackfillee (C : Config) (now : Int) (jp : JobCands) (es : List ExecCand) (s : Mbd) : Mbd :=
  (backfilleeToFreeList jp es).foldl (fun s d => freeSlotsOf C now d s) s

structure Reserving (s : Mbd) (j : JobRef) : Prop where
  live : j ∈ s.live
  pending : (s.jobs j).phase = some .pending
  reserve : (s.jobs j).jStatus.reserve = true
  contiguous : Contiguous (s.jobs j).hPtr

def JData.lending (now : Int) (rest : List HRef) (jp : JData) : JData :=
  if rest = [] then { jp.withReserve false with hPtr := [], reserveTime := 0 }
  else { jp.withReserve true with hPtr := rest, reserveTime := if jp.reserveTime = 0 then now else jp.reserveTime }

section

variable {C : Config} {now : Int} {s : Mbd} {jp : JobCands}

def reserveAnew (C : Config) (now : Int) (j : JobRef) (rest : List HRef) (s : Mbd) : Mbd :=
  let s := (freeReserveSlots j s).modJob j fun jp => { jp with hPtr := rest }
  if rest = [] then s else reserveSlots C now j s

def JData.anew (now : Int) (rest : List HRef) (jp : JData) : JData :=
  if rest = [] then { jp.withReserve false with hPtr := [] }
  else { jp.withReserve true with hPtr := rest, reserveTime := if jp.reserveTime = 0 then now else jp.reserveTime }

theorem reserveAnew_spec (C : Config) (now : Int) (h : Kept s) (hl : j ∈ s.live)
    (hpend : (s.jobs j).phase = some .pending) (hh : (s.jobs j).jStatus.reserve = false → (s.jobs j).hPtr = [])
    (hloc : ∀ x ∈ rest, (s.hosts x).remote = false) (hfit : (rest.length : Int) ≤ (s.jobs j).maxNumProcessors) :
    Kept (reserveAnew C now j rest s) ∧ Around {j} s (reserveAnew C now j rest s) ∧
      (reserveAnew C now j rest s).jobs j = JData.anew now rest (s.jobs j) := by
  have hk1 := h.freeReserveSlots hl fun _ => hpend
  have ha1 := (Around.refl {j} s).freeReserveSlots rfl
  have hj1 : (freeReserveSlots j s).jobs j = { (s.jobs j).withReserve false with hPtr := [] } := by
    cases hr : (s.jobs j).jStatus.reserve with
    | true => rw [freeReserveSlots_jobs j s hr, modJob_job]
    | false =>
      rw [freeReserveSlots, if_pos (by rw [hr]; exact Bool.false_ne_true), ← hh hr, JData.withReserve, ← hr]
  have hl1 : j ∈ (freeReserveSlots j s).live := by rwa [freeReserveSlots_live]
  -- the new array, while nothing is reserved
  have hk2 : Kept ((freeReserveSlots j s).modJob j fun jp => { jp with hPtr := rest }) := by
    refine hk1.setHosts hl1 ?_ rest (fun x hx => ?_) ((Only.refl j _).modJob _) (modJob_job ..)
    · rw [hj1]
      exact .inl ⟨hpend, rfl⟩
    · rw [ha1.remote]
      exact hloc x hx
  have hj2 : ((freeReserveSlots j s).modJob j fun jp => { jp with hPtr := rest }).jobs j =
      { (s.jobs j).withReserve false with hPtr := rest } := by
    rw [modJob_job, hj1]
  have ha2 := ha1.modJob (J := {j}) rfl fun jp => { jp with hPtr := rest }
  unfold reserveAnew
  dsimp only [JData.anew]
  by_cases hn : rest = []
  · subst hn
    exact ⟨hk2, ha2, hj2⟩
  · rw [if_neg hn, if_neg hn]
    have hr2 : (((freeReserveSlots j s).modJob j fun jp => { jp with hPtr := rest }).jobs j).jStatus.reserve = false := by
      rw [hj2]
      rfl
    refine ⟨hk2.reserveSlots (by simpa using hl) now (.inr (.inl ?_)), ha2.reserveSlots rfl C now, ?_⟩
    · rw [hj2]
      exact ⟨hpend, hfit⟩
    · rw [reserveSlots_job j _ C now hr2, hj2]
      rfl

theorem Kept.reserved_le (h : Kept s) (hl : j ∈ s.live) (hpend : (s.jobs j).phase = some .pending)
    (hr : (s.jobs j).jStatus.reserve = true) : ((s.jobs j).hPtr.length : Int) ≤ (s.jobs j).maxNumProcessors := by
  rcases (h.fit j hl).reserve hr with hfit | hfit | hfit
  · exact hfit.2
  · rw [hpend] at hfit
    cases hfit
  · rw [hpend] at hfit
    cases hfit

theorem freeSlotsOf_spec (C : Config) (now : Int) (h : Kept s) (hj : Reserving s d.backfilleePtr)
    (hrest : shrink d.slotsList ((s.jobs d.backfilleePtr).hPtr, (s.jobs d.backfilleePtr).numHostPtr) = (rest, (rest.length : Int)))
    (hs : rest.Sublist (s.jobs d.backfilleePtr).hPtr) :
    Kept (freeSlotsOf C now d s) ∧ Around {d.backfilleePtr} s (freeSlotsOf C now d s) ∧
      (freeSlotsOf C now d s).jobs d.backfilleePtr = JData.lending now rest (s.jobs d.backfilleePtr) := by
  set j := d.backfilleePtr with hjdef
  obtain ⟨hl, hpend, hres, -⟩ := hj
  have hloc : ∀ x ∈ rest, (s.hosts x).remote = false := fun x hx => h.books.placed j hl x (hs.subset hx)
  have hfit := (Int.ofNat_le.mpr hs.length_le).trans (Kept.reserved_le h hl hpend hres)
  obtain ⟨hk, ha, hj⟩ := reserveAnew_spec C now h hl hpend (fun hr => by simp [hres] at hr) hloc hfit
  unfold freeSlotsOf
  simp only [← hjdef, hrest]
  by_cases hn : rest = []
  · subst hn
    rw [reserveAnew, if_pos rfl] at hk ha hj
    simp only [length_nil, Nat.cast_zero, if_true]
    refine ⟨hk.modJob (j := j) _ ?_, ha.modJob rfl _, ?_⟩
    · rw [hj]
      exact ⟨rfl, rfl, rfl, fun _ => rfl, rfl, rfl⟩
    · rw [modJob_job, hj]
      rfl
  · have hl : 0 < rest.length := length_pos_of_ne_nil hn
    rw [if_neg (by omega), if_neg (by omega)]
    rw [reserveAnew, if_neg hn] at hk ha hj
    refine ⟨hk, ha, hj.trans ?_⟩
    rw [JData.anew, JData.lending, if_neg hn, if_neg hn]

structure Freed (jp : JobCands) (es : List ExecCand) (old new : JData) (j : JobRef) : Prop where
  sublist : new.hPtr.Sublist old.hPtr
  count : ∀ h, (new.hPtr.count h : Int) = old.hPtr.count h - borrowed jp es j h
  reserve : new.jStatus.reserve = true ↔ new.hPtr ≠ []
  cleared : new.hPtr = [] → new.reserveTime = 0

theorem JData.lending_freed (now : Int)
    (hs : rest.Sublist old.hPtr) (hc : ∀ h, (rest.count h : Int) = old.hPtr.count h - borrowed jp es j h) :
    Freed jp es old (JData.lending now rest old) j := by
  unfold JData.lending
  split
  case isTrue hn =>
    subst hn
    exact ⟨hs, hc, by simp [JData.withReserve], fun _ => rfl⟩
  case isFalse hne => exact ⟨hs, hc, by simpa [JData.withReserve] using hne, fun hn => absurd hn hne⟩

theorem foldl_freeSlotsOf (C : Config) (now : Int) (ds : List BackfilleeData) (s : Mbd) (h : Kept s) (hn : (ds.map (·.backfilleePtr)).Nodup)
    (hds : ∀ d ∈ ds, Reserving s d.backfilleePtr ∧ (∀ p ∈ d.slotsList, 0 ≤ p.2) ∧
      ∀ h, lentOf d.slotsList h ≤ (s.jobs d.backfilleePtr).hPtr.count h) :
    Kept (ds.foldl (fun s d => freeSlotsOf C now d s) s) ∧
      Around {j | j ∈ ds.map (·.backfilleePtr)} s (ds.foldl (fun s d => freeSlotsOf C now d s) s) ∧
      ∀ d ∈ ds, (ds.foldl (fun s d => freeSlotsOf C now d s) s).jobs d.backfilleePtr = JData.lending now
        (shrink d.slotsList ((s.jobs d.backfilleePtr).hPtr, (s.jobs d.backfilleePtr).numHostPtr)).1 (s.jobs d.backfilleePtr) := by
  induction ds generalizing s with
  | nil => exact ⟨h, .refl _ s, by simp⟩
  | cons d ds ih =>
    rw [map_cons, nodup_cons] at hn
    rw [forall_mem_cons] at hds
    obtain ⟨hr, hpos, hle⟩ := hds.1
    obtain ⟨hs, -, hl⟩ := shrink_spec d.slotsList _ hr.contiguous hpos hle
    obtain ⟨hk, ha, hjob⟩ := freeSlotsOf_spec C now h hr (Prod.ext rfl hl) hs
    have ho : ∀ d' ∈ ds, (freeSlotsOf C now d s).jobs d'.backfilleePtr = s.jobs d'.backfilleePtr := fun d' hd' =>
      ha.other _ fun he => hn.1 (he ▸ mem_map_of_mem hd')
    have hds' : ∀ d' ∈ ds, Reserving (freeSlotsOf C now d s) d'.backfilleePtr ∧ (∀ p ∈ d'.slotsList, 0 ≤ p.2) ∧
        ∀ h, lentOf d'.slotsList h ≤ ((freeSlotsOf C now d s).jobs d'.backfilleePtr).hPtr.count h := by
      intro d' hd'
      obtain ⟨⟨hl, hpend, hr, hcont⟩, hpos', hle'⟩ := hds.2 d' hd'
      rw [ho d' hd']
      refine ⟨⟨?_, ?_, ?_, ?_⟩, hpos', hle'⟩
      · rwa [ha.live]
      all_goals rwa [ho d' hd']
    obtain ⟨hk', ha', hjobs'⟩ := ih (freeSlotsOf C now d s) hk hn.2 hds'
    refine ⟨hk', (ha.mono ?_).trans (ha'.mono ?_), forall_mem_cons.mpr ⟨?_, fun d' hd' => ?_⟩⟩
    · simp
    · intro j hj
      exact mem_cons_of_mem _ hj
    · rw [foldl_cons, ha'.other _ hn.1, hjob]
    · rw [foldl_cons, hjobs' d' hd', ho d' hd']

/-- Each backfillee loses what was borrowed on each host, and the counters are those of the rest, exactly if it has so many
slots there. -/
theorem freeBackfillSlotsFromBackfillee_frees_iff (h : Kept s) (es : List ExecCand)
    (hres : ∀ b ∈ backfilleesOf es, Reserving s b.backfilleePtr ∧ 0 ≤ b.backfillSlots) :
    ((∀ b ∈ backfilleesOf es, Freed jp es (s.jobs b.backfilleePtr)
      ((freeBackfillSlotsFromBackfillee C now jp es s).jobs b.backfilleePtr) b.backfilleePtr) ∧
    (∀ j ∉ (backfilleesOf es).map (·.backfilleePtr),
      (freeBackfillSlotsFromBackfillee C now jp es s).jobs j = s.jobs j) ∧
    Kept (freeBackfillSlotsFromBackfillee C now jp es s) ∧
    ∀ x, ((freeBackfillSlotsFromBackfillee C now jp es s).hosts x).count .numRESERVE =
      ∑ j ∈ s.live with ((freeBackfillSlotsFromBackfillee C now jp es s).jobs j).heldIn .numRESERVE,
        (((freeBackfillSlotsFromBackfillee C now jp es s).jobs j).hPtr.count x : Int)) ↔
    ∀ b ∈ backfilleesOf es, ∀ x, borrowed jp es b.backfilleePtr x ≤ (s.jobs b.backfilleePtr).hPtr.count x := by
  refine ⟨fun ⟨hfreed, _⟩ b hb x => ?_, fun hle => ?_⟩
  · have hc := (hfreed b hb).count x
    omega
  obtain ⟨hn, hj, hl⟩ := foldl_addToFreeList jp (backfilleesOf es) [] (by simp)
  have hmem : ∀ j, j ∈ (backfilleeToFreeList jp es).map (·.backfilleePtr) ↔ j ∈ (backfilleesOf es).map (·.backfilleePtr) :=
    fun j => (hj j).trans (by simp)
  have hs : ∀ d ∈ backfilleeToFreeList jp es,
      d.slotsList = ((backfilleesOf es).filter (·.backfilleePtr = d.backfilleePtr)).map jp.slotsFrom := fun d hd =>
    (slotsListed_of_mem hn hd).symm.trans (hl d.backfilleePtr)
  have hds : ∀ d ∈ backfilleeToFreeList jp es, Reserving s d.backfilleePtr ∧ (∀ p ∈ d.slotsList, 0 ≤ p.2) ∧
      ∀ h, lentOf d.slotsList h ≤ (s.jobs d.backfilleePtr).hPtr.count h := by
    intro d hd
    obtain ⟨b, hb, hbd⟩ := mem_map.mp ((hmem d.backfilleePtr).mp (mem_map_of_mem hd))
    refine ⟨hbd ▸ (hres b hb).1, fun p hp => ?_, fun x => ?_⟩
    · rw [hs d hd] at hp
      obtain ⟨b', hb', rfl⟩ := mem_map.mp hp
      exact (hres b' (mem_of_mem_filter hb')).2
    · rw [hs d hd, ← hbd]
      exact hle b hb x
  obtain ⟨hk, ha, hdone⟩ := foldl_freeSlotsOf C now (backfilleeToFreeList jp es) s h hn hds
  refine ⟨fun b hb => ?_, fun j hj => ha.other j fun hj' => hj ((hmem j).mp hj'), hk, fun x => ?_⟩
  case refine_2 =>
    rw [← ha.live]
    exact hk.host_sum x (by decide) (by decide)
  obtain ⟨d, hd, hdb⟩ := mem_map.mp ((hmem b.backfilleePtr).mpr (mem_map_of_mem hb))
  obtain ⟨hr, hpos, hl⟩ := hds d hd
  obtain ⟨hsub, hc, -⟩ := shrink_spec d.slotsList _ hr.contiguous hpos hl
  rw [← hdb]
  unfold freeBackfillSlotsFromBackfillee
  rw [hdone d hd]
  refine JData.lending_freed now hsub fun x => (hc x).trans ?_
  rw [borrowed, ← hs d hd]

end

/-- Job 0 has reserved a slot of host 1 and a slot of host 3. -/
def lender : Mbd :=
  Run.run (step {}) [.newJob 1 false 0 1 0 { queue := 0, maxNumProcessors := 3 }, .allocHosts 0 2 [(1, 1), (3, 1)],
    .reserveSlots 2 0] .blank

def borrower : JobCands where
  numProcessors := 1
  maxNumProcessors := 1
  numSlots := 1
  numAvailSlots := 1
  canBackfill := true
  candPtr := [
    { hData := 2, numSlots := 1, numAvailSlots := 1 },
    { hData := 1, numSlots := 1, numAvailSlots := 1, backfilleeList := some [{ backfilleePtr := 0, backfillSlots := 1 }] }]

def afterLending : Mbd :=
  freeBackfillSlotsFromBackfillee {} 3 borrower (getNumProcs lender borrower).execCandPtr lender

theorem freeBackfillSlotsFromBackfillee_lender : (afterLending.jobs 0).hPtr = [3] ∧ Kept afterLending := by
  have ho : backfilleesOf (getNumProcs lender borrower).execCandPtr =
      [{ backfilleePtr := 0, indexInCandHostList := 1, backfillSlots := 1 }] := by decide
  refine ⟨by decide, ((freeBackfillSlotsFromBackfillee_frees_iff (kept_run Mbd.blank_initial rfl _ (by decide)) _ ?_).mpr ?_).2.2.1⟩
  · rw [ho]
    simp only [mem_singleton, forall_eq]
    exact ⟨⟨by decide, by decide, by decide, by decide⟩, by decide⟩
  · rw [ho]
    simp only [mem_singleton, forall_eq]
    intro x
    have hl : lentOf [(1, 1)] x ≤ ([1, 3].count x : Int) := by
      rw [lentOf_cons]
      by_cases hx : x = 1
      · subst hx
        decide
      · simp [hx, lentOf]
    exact hl

/-- The dispatch fails, the slot is borrowed again, and the backfillee loses one of host 3. -/
theorem freeBackfillSlotsFromBackfillee_again : (afterLending.jobs 0).hPtr = [3] ∧
    borrowed { borrower with candPtr := borrower.candPtr.tail }
      (getNumProcs afterLending { borrower with candPtr := borrower.candPtr.tail }).execCandPtr 0 3 = 0 ∧
    ((freeBackfillSlotsFromBackfillee {} 4 { borrower with candPtr := borrower.candPtr.tail }
      (getNumProcs afterLending { borrower with candPtr := borrower.candPtr.tail }).execCandPtr afterLending).jobs 0).hPtr = [] := by
  decide

end OpenLava.Dispatch

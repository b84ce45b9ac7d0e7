import OpenLava.Deal
import OpenLava.Mbd.Restore

/-!
# Execution candidates

`getNumProcs` picks from the candidate hosts of a job the execution candidates with the slots the job gets: first the
slots it can borrow from reserving jobs, the backfillees, then those that are free at once, then those that can only be
reserved.
-/

namespace OpenLava.Dispatch

open List Deal

/-- `struct backfillee` -/
structure Backfillee where
  backfilleePtr : JobRef
  indexInCandHostList : Nat := 0
  backfillSlots : Int
  deriving DecidableEq, Repr

/-- `struct candHost`, as an entry of `candPtr` -/
structure CandHost where
  hData : HRef
  (numSlots numAvailSlots numNonBackfillSlots numAvailNonBackfillSlots : Int := 0)
  backfilleeList : Option (List Backfillee) := none
  deriving DecidableEq, Repr

/-- `struct candHost`, as an entry of `execCandPtr`, with its place in `candPtr`. -/
structure ExecCand where
  hData : Option HRef
  indexInCandHostList : Nat
  (numSlots numAvailSlots : Int)
  backfilleeList : Option (List Backfillee) := none
  deriving DecidableEq, Repr

structure JobCands where
  (numProcessors maxNumProcessors : Int)
  (numSlots numAvailSlots : Int) -- the limits of the queue and the user on the job's slots
  candPtr : List CandHost
  canBackfill : Bool := false -- `JOB_CAN_BACKFILL`
  (hostPreference allInOne needHandleFirstHost : Bool := false) -- `HAS_HOST_PREFERNECE`
  /-- the time from the end of the job on a host to the predicted start of a backfillee -/
  spare : JobRef → HRef → Int := fun _ _ => 0
  beyond : CandHost := { hData := 0 } -- what is read behind the end of `candPtr`

/-- What `getNumProcs` leaves in the job. -/
structure Granted where
  execCandPtr : List ExecCand
  (numEligProc numAvailEligProc : Int)
  deriving DecidableEq, Repr

def JobCands.cand (jp : JobCands) (i : Nat) : CandHost := jp.candPtr.getD i jp.beyond

/-- `getNumSlots` takes no more from a candidate than the job may have. -/
def clampCand (jp : JobCands) (c : CandHost) : CandHost :=
  let numSlots := min c.numSlots jp.numSlots
  { c with numSlots, numAvailSlots := min (min c.numAvailSlots numSlots) jp.numAvailSlots }

/-- The loop of `getNumSlots`; with `allInOne` the candidate to be used is moved to the front. -/
def getNumSlotsLoop (jp : JobCands) : List CandHost → List CandHost → Int → Int → List CandHost × Int × Int
  | seen, [], numSlots, numAvailSlots => (seen, numSlots, numAvailSlots)
  | seen, c :: rest, numSlots, numAvailSlots =>
    let c := clampCand jp c
    if jp.allInOne ∧ ¬ jp.needHandleFirstHost then
      if numSlots = 0 ∧ 0 < c.numSlots ∨
          numSlots ≠ 0 ∧ numSlots < jp.numProcessors ∧ jp.numProcessors ≤ c.numSlots then
        getNumSlotsLoop jp (c :: seen) rest c.numSlots c.numAvailSlots
      else getNumSlotsLoop jp (seen ++ [c]) rest numSlots numAvailSlots
    else getNumSlotsLoop jp (seen ++ [c]) rest (numSlots + c.numSlots) (numAvailSlots + c.numAvailSlots)

def getNumSlots (jp : JobCands) : JobCands :=
  let r := getNumSlotsLoop jp [] jp.candPtr 0 0
  { jp with candPtr := r.1, numSlots := min jp.numSlots r.2.1, numAvailSlots := min jp.numAvailSlots r.2.2 }

def insertIntoSortedBackfilleeList (jp : JobCands) (item : Backfillee) : List Backfillee → List Backfillee
  | [] => [item]
  | entry :: rest =>
    let diff := fun (b : Backfillee) => jp.spare b.backfilleePtr (jp.cand b.indexInCandHostList).hData
    if diff item < diff entry then item :: entry :: rest
    else entry :: insertIntoSortedBackfilleeList jp item rest

def sortBackfillee (jp : JobCands) : List Backfillee :=
  (jp.candPtr.zipIdx.flatMap fun ci =>
    (ci.1.backfilleeList.getD []).map fun b => { b with indexInCandHostList := ci.2 }).foldl
      (fun sorted item => insertIntoSortedBackfilleeList jp item sorted) []

def jobHasBackfillee (jp : JobCands) : Bool := jp.candPtr.any (·.backfilleeList.isSome)

/-- Slots go to the execution candidate on the host, `maxSlots` at most. -/
def borrowOn (jp : JobCands) (b : Backfillee) (maxSlots slotsToUse : Int) : List ExecCand → List ExecCand × Int
  | [] =>
    ([{ hData := some (jp.cand b.indexInCandHostList).hData, indexInCandHostList := b.indexInCandHostList,
        numSlots := slotsToUse, numAvailSlots := slotsToUse,
        backfilleeList := some (if slotsToUse ≠ 0 then [{ b with backfillSlots := slotsToUse }] else []) }], slotsToUse)
  | e :: es =>
    if e.indexInCandHostList = b.indexInCandHostList then
      let slotsToUse := min slotsToUse (maxSlots - e.numAvailSlots)
      let borrowed := if slotsToUse ≠ 0 then [{ b with backfillSlots := slotsToUse }] else []
      ({ e with
          numAvailSlots := e.numAvailSlots + slotsToUse, numSlots := e.numAvailSlots + slotsToUse,
          backfilleeList := some (e.backfilleeList.getD [] ++ borrowed) } :: es, slotsToUse)
    else
      let r := borrowOn jp b maxSlots slotsToUse es
      (e :: r.1, r.2)

def borrow (jp : JobCands) : List Backfillee → List ExecCand → Int → List ExecCand × Int
  | [], es, n => (es, n)
  | b :: bs, es, n =>
    if n < jp.numAvailSlots ∧ n < jp.maxNumProcessors then
      let backfillSlots := min b.backfillSlots (jp.maxNumProcessors - n)
      let maxSlots := (jp.cand b.indexInCandHostList).numAvailSlots
      let r := borrowOn jp b maxSlots (min maxSlots backfillSlots) es
      borrow jp bs r.1 (n + r.2)
    else (es, n)

def candHostInBackfillCandList (es : List ExecCand) (i : Nat) : Bool := es.any (·.indexInCandHostList = i)

def JobCands.wantsAvail (jp : JobCands) (n : Int) : Prop := n < jp.numAvailSlots ∧ n < jp.maxNumProcessors

instance (jp : JobCands) : DecidablePred jp.wantsAvail := fun _ => inferInstanceAs (Decidable (_ ∧ _))

def JobCands.wantsMore (jp : JobCands) (n : Int) : Prop := n < jp.numSlots ∧ n < jp.numProcessors

instance (jp : JobCands) : DecidablePred jp.wantsMore := fun _ => inferInstanceAs (Decidable (_ ∧ _))

def addAvail (jp : JobCands) : List ExecCand → Int → List ExecCand × Int :=
  deal jp.wantsAvail
    (fun e n => min ((jp.cand e.indexInCandHostList).numAvailSlots - e.numAvailSlots) (jp.maxNumProcessors - n))
    (fun e k => { e with numAvailSlots := e.numAvailSlots + k, numSlots := e.numAvailSlots + k })

/-- The loops over the unused candidates; `offer` is what a candidate offers. -/
def addCands (jp : JobCands) (go : Int → Prop) [DecidablePred go] (offer : CandHost → Int) (es : List ExecCand) (n : Int) :
    List ExecCand × Int :=
  let r := make go (fun (ci : CandHost × Nat) n =>
    if candHostInBackfillCandList es ci.2 then none
    else if offer ci.1 = 0 then none
    else
      let nSlots := min (offer ci.1) (jp.maxNumProcessors - n)
      some (nSlots,
        { hData := some ci.1.hData, indexInCandHostList := ci.2
          numSlots := nSlots, numAvailSlots := min ci.1.numAvailSlots nSlots })) jp.candPtr.zipIdx n
  (es ++ r.1, r.2)

def addReserved (jp : JobCands) : List ExecCand → Int → List ExecCand × Int :=
  deal jp.wantsMore
    (fun e n => min ((jp.cand e.indexInCandHostList).numSlots - e.numSlots) (jp.maxNumProcessors - n))
    (fun e k => { e with numSlots := e.numSlots + k })

/-- The branch of `getNumProcs` for a job that backfills. -/
def backfillCands (jp : JobCands) : Granted :=
  let r := borrow jp (sortBackfillee jp) [] 0
  let r := addAvail jp r.1 r.2
  let avail := addCands jp jp.wantsAvail (·.numAvailSlots) r.1 r.2
  if avail.2 < jp.numProcessors then
    let r := addReserved jp avail.1 avail.2
    let r := addCands jp jp.wantsMore (·.numSlots) r.1 r.2
    ⟨r.1, r.2, avail.2⟩
  else ⟨avail.1, avail.2, avail.2⟩

def allReserved (s : Mbd) (h : HRef) : Prop := (s.hosts h).maxJobs ≤ (s.hosts h).count .numRESERVE

instance (s : Mbd) : DecidablePred (allReserved s) := fun _ => inferInstanceAs (Decidable (_ ≤ _))

def takeAvail (jp : JobCands) : List (CandHost × Nat) → Int → List ExecCand × Int :=
  make jp.wantsAvail fun ci n =>
    let nAvailSlots := min (min ci.1.numAvailSlots (jp.maxNumProcessors - n)) (jp.numAvailSlots - n)
    some (nAvailSlots,
      { hData := some ci.1.hData, indexInCandHostList := ci.2, numSlots := nAvailSlots, numAvailSlots := nAvailSlots })

def takeMore (s : Mbd) (jp : JobCands) : List ExecCand → Int → List ExecCand × Int :=
  deal jp.wantsMore
    (fun e n =>
      let c := jp.cand e.indexInCandHostList
      if allReserved s c.hData then 0 else min (c.numSlots - e.numAvailSlots) (jp.numProcessors - n))
    (fun e k => { e with numSlots := e.numSlots + k })

/-- The slots of the hosts behind these. A host whose slots are all reserved leaves an empty entry. -/
def takeOthers (s : Mbd) (jp : JobCands) : List (CandHost × Nat) → Int → List ExecCand × Int :=
  make jp.wantsMore fun ci n =>
    if allReserved s ci.1.hData then
      some (0, { hData := none, indexInCandHostList := ci.2, numSlots := 0, numAvailSlots := 0 })
    else
      let nSlots := min ci.1.numSlots (jp.numProcessors - n)
      some (nSlots,
        { hData := some ci.1.hData, indexInCandHostList := ci.2
          numSlots := nSlots, numAvailSlots := min ci.1.numAvailSlots nSlots })

/-- The other branch of `getNumProcs`. -/
def plainCands (s : Mbd) (jp : JobCands) : Granted :=
  let avail := takeAvail jp jp.candPtr.zipIdx 0
  if avail.2 < jp.numProcessors then
    let more := takeMore s jp avail.1 avail.2
    let others := takeOthers s jp (jp.candPtr.zipIdx.drop avail.1.length) more.2
    ⟨more.1 ++ others.1, others.2, avail.2⟩
  else ⟨avail.1, avail.2, avail.2⟩
/-- The backfillees of a candidate with `avail` slots, of which `n` are borrowed so far. -/
def lendOn (avail : Int) (i : Nat) : List Backfillee → Int → List Backfillee
  | [], _ => []
  | b :: bs, n =>
    let backfillSlots := min (avail - n) b.backfillSlots
    { b with indexInCandHostList := i, backfillSlots } ::
      if n + backfillSlots = avail then [] else lendOn avail i bs (n + backfillSlots)

def getBackfillSlotsOnExecCandHost (jp : JobCands) (g : Granted) : Granted :=
  { g with
    execCandPtr := g.execCandPtr.map fun e =>
      match (jp.cand e.indexInCandHostList).backfilleeList.getD [] with
      | [] => e
      | b :: bs => { e with backfilleeList := some (lendOn e.numAvailSlots e.indexInCandHostList (b :: bs) 0) } }

/-- The slots of a backfillee are taken back as far as `c` cannot replace them. -/
def giveBack (c : CandHost) (r : ExecCand × Int × Int) (b : Backfillee) : ExecCand × Int × Int :=
  let numNonBackfillSlotsUsed := r.1.numSlots - b.backfillSlots
  let numAvailNonBackfillSlotsUsed := r.1.numAvailSlots - b.backfillSlots
  let numNonBackfillSlotsUnused := c.numNonBackfillSlots - numNonBackfillSlotsUsed
  let numAvailNonBackfillSlotsUnused := c.numAvailNonBackfillSlots - numAvailNonBackfillSlotsUsed
  let numSlotsToRemove := max 0 (b.backfillSlots - numNonBackfillSlotsUnused)
  let numAvailSlotsToRemove := max 0 (b.backfillSlots - numAvailNonBackfillSlotsUnused)
  ({ r.1 with
      numSlots := r.1.numSlots - numSlotsToRemove, numAvailSlots := r.1.numAvailSlots - numAvailSlotsToRemove },
    r.2.1 + numSlotsToRemove, r.2.2 + numAvailSlotsToRemove)

/-- The candidate with the host; without one, what is behind the array is read. -/
def JobCands.candOf (jp : JobCands) (e : ExecCand) : CandHost :=
  (jp.candPtr.find? fun c => some c.hData = e.hData).getD jp.beyond

def giveBackAll (jp : JobCands) : List ExecCand → Int × Int → List ExecCand × Int × Int
  | [], t => ([], t)
  | e :: es, t =>
    let r := (e.backfilleeList.getD []).foldl (giveBack (jp.candOf e)) (e, t)
    let rs := giveBackAll jp es r.2
    (r.1 :: rs.1, rs.2)

def removeBackfillSlotsFromBackfiller (jp : JobCands) (g : Granted) : Granted :=
  let r := giveBackAll jp g.execCandPtr (0, 0)
  ⟨r.1, g.numEligProc - r.2.1, g.numAvailEligProc - r.2.2⟩

/-- What `doBackfill` does to the job; the backfillees are freed by the caller. -/
def doBackfill (jp : JobCands) (g : Granted) : Granted :=
  if jp.numProcessors ≤ g.numEligProc then g else removeBackfillSlotsFromBackfiller jp g

def JobCands.backfills (jp : JobCands) : Bool :=
  jp.canBackfill && !jp.hostPreference && jobHasBackfillee jp && !jp.allInOne

def getNumProcs (s : Mbd) (jp : JobCands) : Granted :=
  if jp.backfills then doBackfill jp (backfillCands jp)
  else
    let g := plainCands s jp
    if jp.canBackfill ∧ jobHasBackfillee jp then doBackfill jp (getBackfillSlotsOnExecCandHost jp g) else g

/-- The limits are in this order, and nothing negative is lent. -/
structure JobCands.Sound (jp : JobCands) : Prop where
  cand : ∀ c ∈ jp.candPtr, 0 ≤ c.numAvailSlots ∧ c.numAvailSlots ≤ c.numSlots
  lent : ∀ c ∈ jp.candPtr, ∀ b ∈ c.backfilleeList.getD [], 0 ≤ b.backfillSlots
  avail : 0 ≤ jp.numAvailSlots ∧ jp.numAvailSlots ≤ jp.numSlots
  procs : 0 ≤ jp.numProcessors ∧ jp.numProcessors ≤ jp.maxNumProcessors

structure Fits (jp : JobCands) (e : ExecCand) : Prop where
  lt : e.indexInCandHostList < jp.candPtr.length
  host : e.hData = some (jp.cand e.indexInCandHostList).hData ∨ e.hData = none ∧ e.numSlots ≤ 0
  slots : e.numSlots ≤ (jp.cand e.indexInCandHostList).numSlots

structure AtOnce (jp : JobCands) (e : ExecCand) : Prop where
  lt : e.indexInCandHostList < jp.candPtr.length
  host : e.hData = some (jp.cand e.indexInCandHostList).hData
  eq : e.numSlots = e.numAvailSlots
  avail : e.numAvailSlots ≤ (jp.cand e.indexInCandHostList).numAvailSlots
  nonneg : 0 ≤ e.numAvailSlots

def slotSum (es : List ExecCand) : Int := (es.map (·.numSlots)).sum

def availSum (es : List ExecCand) : Int := (es.map (·.numAvailSlots)).sum

@[simp] theorem slotSum_append (es es' : List ExecCand) : slotSum (es ++ es') = slotSum es + slotSum es' := by
  simp [slotSum]

section

variable {jp : JobCands} {s : Mbd}

theorem cand_mem (hi : i < jp.candPtr.length) : jp.cand i ∈ jp.candPtr := by
  unfold JobCands.cand
  rw [getD_eq_getElem?_getD, List.getElem?_eq_getElem hi]
  exact getElem_mem hi

theorem cand_of_mem_zipIdx (h : ci ∈ jp.candPtr.zipIdx) : ci.2 < jp.candPtr.length ∧ jp.cand ci.2 = ci.1 := by
  obtain ⟨hi, hc⟩ := mem_zipIdx' h
  refine ⟨hi, ?_⟩
  unfold JobCands.cand
  rw [getD_eq_getElem?_getD, List.getElem?_eq_getElem hi, hc]
  rfl

theorem JobCands.Sound.cand_at (h : jp.Sound) (hi : i < jp.candPtr.length) :
    0 ≤ (jp.cand i).numAvailSlots ∧ (jp.cand i).numAvailSlots ≤ (jp.cand i).numSlots :=
  h.cand _ (cand_mem hi)

theorem AtOnce.fits (h : jp.Sound) (he : AtOnce jp e) : Fits jp e := by
  refine ⟨he.lt, .inl he.host, ?_⟩
  rw [he.eq]
  exact he.avail.trans (h.cand_at he.lt).2

theorem mem_insertIntoSortedBackfilleeList : b ∈ insertIntoSortedBackfilleeList jp item sorted ↔ b = item ∨ b ∈ sorted := by
  induction sorted with
  | nil => simp [insertIntoSortedBackfilleeList]
  | cons entry rest ih =>
    simp only [insertIntoSortedBackfilleeList]
    split
    · simp
    · simp only [mem_cons, ih]
      tauto

theorem mem_foldl_insert (items sorted : List Backfillee)
    (h : b ∈ items.foldl (fun sorted item => insertIntoSortedBackfilleeList jp item sorted) sorted) :
    b ∈ items ∨ b ∈ sorted := by
  induction items generalizing sorted with
  | nil => exact .inr h
  | cons item items ih =>
    rcases ih _ h with hb | hb
    · exact .inl (mem_cons_of_mem _ hb)
    · rcases mem_insertIntoSortedBackfilleeList.mp hb with rfl | hb
      · exact .inl mem_cons_self
      · exact .inr hb

theorem of_mem_sortBackfillee (h : jp.Sound) (hb : b ∈ sortBackfillee jp) :
    b.indexInCandHostList < jp.candPtr.length ∧ 0 ≤ b.backfillSlots := by
  rcases mem_foldl_insert _ _ hb with hb | hb
  · obtain ⟨ci, hci, hb⟩ := mem_flatMap.mp hb
    obtain ⟨b', hb', rfl⟩ := mem_map.mp hb
    obtain ⟨hi, hc⟩ := cand_of_mem_zipIdx hci
    exact ⟨hi, h.lent ci.1 (hc ▸ cand_mem hi) b' hb'⟩
  · cases hb

theorem borrowOn_spec (hb : b.indexInCandHostList < jp.candPtr.length) (use : Int) (hu : 0 ≤ use)
    (hmax : use ≤ (jp.cand b.indexInCandHostList).numAvailSlots) (es : List ExecCand) (hes : ∀ e ∈ es, AtOnce jp e) :
    (∀ e ∈ (borrowOn jp b (jp.cand b.indexInCandHostList).numAvailSlots use es).1, AtOnce jp e) ∧
    (borrowOn jp b (jp.cand b.indexInCandHostList).numAvailSlots use es).2 ≤ use ∧
    slotSum (borrowOn jp b (jp.cand b.indexInCandHostList).numAvailSlots use es).1 =
    slotSum es + (borrowOn jp b (jp.cand b.indexInCandHostList).numAvailSlots use es).2 := by
  induction es with
  | nil =>
    refine ⟨?_, le_rfl, by simp [borrowOn, slotSum]⟩
    simp only [borrowOn, mem_singleton, forall_eq]
    exact ⟨hb, rfl, rfl, hmax, hu⟩
  | cons e es ih =>
    rw [forall_mem_cons] at hes
    simp only [borrowOn]
    split
    case isTrue hs =>
      obtain ⟨hlt, hhost, heq, ha, hn⟩ := hes.1
      have hl := ha
      refine ⟨forall_mem_cons.mpr ⟨⟨hlt, hhost, rfl, ?_, ?_⟩, hes.2⟩, min_le_left _ _, ?_⟩
      · dsimp only
        rw [hs]
        omega
      · dsimp only
        omega
      · simp only [slotSum, map_cons, sum_cons, heq]
        ring
    case isFalse =>
      obtain ⟨ha, hle, hs⟩ := ih hes.2
      refine ⟨forall_mem_cons.mpr ⟨hes.1, ha⟩, hle, ?_⟩
      simp only [slotSum, map_cons, sum_cons] at hs ⊢
      rw [hs]
      ring

/-- Entries with the number of their slots, which is at most `max`. -/
structure Grants (Q : ExecCand → Prop) (max : Int) (r : List ExecCand × Int) : Prop where
  all : ∀ e ∈ r.1, Q e
  sum : slotSum r.1 = r.2
  le : r.2 ≤ max

theorem Grants.deal {P Q : ExecCand → Prop} {go : Int → Prop} [DecidablePred go] {amt : ExecCand → Int → Int}
    {put : ExecCand → Int → ExecCand} {max : Int} {es : List ExecCand} {n : Int} (h : Grants P max (es, n))
    (hs : ∀ e, P e → Q e) (hstep : ∀ e m, go m → m ≤ max → P e → Q (put e (amt e m)) ∧
      (put e (amt e m)).numSlots = e.numSlots + amt e m ∧ 0 ≤ amt e m ∧ m + amt e m ≤ max) :
    Grants Q max (Deal.deal go amt put es n) ∧ n ≤ (Deal.deal go amt put es n).2 := by
  obtain ⟨ha, hsum, hge, hle⟩ := deal_rule (I := fun m => n ≤ m ∧ m ≤ max) (f := ExecCand.numSlots) hs
    (fun e m hgo hm he => by
      obtain ⟨hq, hs, hamt, hle⟩ := hstep e m hgo hm.2 he
      exact ⟨hq, hs, by omega, hle⟩) es n h.all ⟨le_rfl, h.le⟩
  have hd : slotSum (Deal.deal go amt put es n).1 - (Deal.deal go amt put es n).2 = slotSum es - n := hsum
  have hes : slotSum es = n := h.sum
  exact ⟨⟨ha, by omega, hle⟩, hge⟩

theorem Grants.make [DecidablePred go]
    {mk : CandHost × Nat → Int → Option (Int × ExecCand)} {max : Int} (h : Grants Q max (es, n))
    (hcs : cs ⊆ jp.candPtr.zipIdx) (hstep : ∀ i m k e, i < jp.candPtr.length → go m → m ≤ max →
      mk (jp.cand i, i) m = some (k, e) → Q e ∧ e.numSlots = k ∧ 0 ≤ k ∧ m + k ≤ max) :
    Grants Q max (es ++ (Deal.make go mk cs n).1, (Deal.make go mk cs n).2) ∧ n ≤ (Deal.make go mk cs n).2 := by
  obtain ⟨ha, hsum, hge, hle⟩ := make_rule go mk (P := (· ∈ jp.candPtr.zipIdx)) (Q := Q) (I := fun m => n ≤ m ∧ m ≤ max)
    (f := ExecCand.numSlots) (fun ci m k e hgo hm hci hmk => by
      obtain ⟨hlt, hc⟩ := cand_of_mem_zipIdx hci
      obtain ⟨hq, hs, hk, hle⟩ := hstep ci.2 m k e hlt hgo hm.2 (by rw [hc]; exact hmk)
      exact ⟨hq, hs, by omega, hle⟩) cs n hcs ⟨le_rfl, h.le⟩
  refine ⟨⟨fun e he => (mem_append.mp he).elim (h.all e) (ha e), ?_, hle⟩, hge⟩
  rw [slotSum_append, h.sum]
  exact hsum

/-- No step of a loop passes `M`; a step takes at most what a candidate offers and what is left of
`maxNumProcessors`. -/
def Bounds (jp : JobCands) (go : Int → Prop) (offer : CandHost → Int) (M : Int) : Prop :=
  ∀ i m k, i < jp.candPtr.length → go m → k ≤ offer (jp.cand i) → k ≤ jp.maxNumProcessors - m → m + k ≤ M

theorem Bounds.maxNumProcessors (go : Int → Prop) (offer : CandHost → Int) : Bounds jp go offer jp.maxNumProcessors :=
  fun _ _ _ _ _ _ hk => by omega

theorem borrow_spec (bs : List Backfillee)
    (hbs : ∀ b ∈ bs, b.indexInCandHostList < jp.candPtr.length ∧ 0 ≤ b.backfillSlots) (h : jp.Sound)
    (hM : Bounds jp jp.wantsAvail (·.numAvailSlots) M) (hes : Grants (AtOnce jp) M (es, n)) :
    Grants (AtOnce jp) M (borrow jp bs es n) := by
  induction bs generalizing es n with
  | nil => exact hes
  | cons b bs ih =>
    rw [forall_mem_cons] at hbs
    simp only [borrow]
    split
    case isTrue hgo =>
      have hc := h.cand_at hbs.1.1
      obtain ⟨ha, hle, hs⟩ := borrowOn_spec hbs.1.1
        (min (jp.cand b.indexInCandHostList).numAvailSlots (min b.backfillSlots (jp.maxNumProcessors - n))) (by omega)
        (min_le_left _ _) es hes.all
      exact ih hbs.2 ⟨ha, by rw [hs, hes.sum], hM _ n _ hbs.1.1 hgo (hle.trans (min_le_left _ _))
        (hle.trans ((min_le_right _ _).trans (min_le_right _ _)))⟩
    case isFalse => exact hes

theorem addAvail_spec (hM : Bounds jp jp.wantsAvail (·.numAvailSlots) M) (hes : Grants (AtOnce jp) M (es, n)) :
    Grants (AtOnce jp) M (addAvail jp es n) := by
  refine (hes.deal (fun _ he => he) fun e m hgo hm he => ?_).1
  have heq := he.eq
  have ha := he.avail
  have hn := he.nonneg
  have hmax := hgo.2
  refine ⟨⟨he.lt, he.host, rfl, ?_, ?_⟩, ?_, by omega, hM _ m _ he.lt hgo ?_ (min_le_right _ _)⟩ <;> dsimp only <;> omega

theorem addCands_rule (go : Int → Prop) [DecidablePred go] (offer : CandHost → Int)
    (hgo : ∀ n, go n → n ≤ jp.maxNumProcessors) (ho : ∀ i, i < jp.candPtr.length → 0 ≤ offer (jp.cand i))
    (hQ : ∀ i nSlots, i < jp.candPtr.length → nSlots ≤ offer (jp.cand i) → 0 ≤ nSlots →
      Q { hData := some (jp.cand i).hData, indexInCandHostList := i
          numSlots := nSlots, numAvailSlots := min (jp.cand i).numAvailSlots nSlots })
    (hM : Bounds jp go offer M) (hes : Grants Q M (es, n)) :
    Grants Q M (addCands jp go offer es n) ∧ n ≤ (addCands jp go offer es n).2 := by
  refine hes.make (fun _ h => h) fun i m k e hi hm _ he => ?_
  have hr := hgo m hm
  have hn : 0 ≤ min (offer (jp.cand i)) (jp.maxNumProcessors - m) := le_min (ho i hi) (by omega)
  split_ifs at he
  obtain ⟨rfl, rfl⟩ := he
  exact ⟨hQ i _ hi (min_le_left _ _) hn, rfl, hn, hM i m _ hi hm (min_le_left _ _) (min_le_right _ _)⟩

/-- What is granted before borrowed slots are given back. -/
structure Dealt (jp : JobCands) (g : Granted) : Prop where
  fits : ∀ e ∈ g.execCandPtr, Fits jp e
  sum : slotSum g.execCandPtr = g.numEligProc
  order : g.numAvailEligProc ≤ g.numEligProc
  max : g.numEligProc ≤ jp.maxNumProcessors
  /-- a job that gets its processors at once reserves none -/
  enough : jp.numProcessors ≤ g.numAvailEligProc →
    g.numEligProc = g.numAvailEligProc ∧ ∀ e ∈ g.execCandPtr, AtOnce jp e

theorem Dealt.atOnce (h : jp.Sound) (hr : Grants (AtOnce jp) jp.maxNumProcessors r) : Dealt jp ⟨r.1, r.2, r.2⟩ :=
  ⟨fun e he => (hr.all e he).fits h, hr.sum, le_rfl, hr.le, fun _ => ⟨rfl, hr.all⟩⟩

theorem addReserved_spec (h : jp.Sound) (hes : Grants (AtOnce jp) jp.maxNumProcessors (es, n)) :
    Grants (Fits jp) jp.maxNumProcessors (addReserved jp es n) ∧ n ≤ (addReserved jp es n).2 := by
  refine hes.deal (fun _ he => he.fits h) fun e m hgo hm he => ?_
  have hs := (he.fits h).slots
  refine ⟨⟨he.lt, .inl he.host, ?_⟩, rfl, by omega, by omega⟩
  dsimp only
  omega

/-- The slots a job that borrows can have at once. -/
theorem borrow_grants (h : jp.Sound) (hM : Bounds jp jp.wantsAvail (·.numAvailSlots) M) (hpos : 0 ≤ M) :
    Grants (AtOnce jp) M (addCands jp jp.wantsAvail (·.numAvailSlots)
      (addAvail jp (borrow jp (sortBackfillee jp) [] 0).1 (borrow jp (sortBackfillee jp) [] 0).2).1
      (addAvail jp (borrow jp (sortBackfillee jp) [] 0).1 (borrow jp (sortBackfillee jp) [] 0).2).2) := by
  have hbor : Grants (AtOnce jp) M (borrow jp (sortBackfillee jp) [] 0) :=
    borrow_spec _ (fun _ hb => of_mem_sortBackfillee h hb) h hM ⟨by simp, rfl, hpos⟩
  exact (addCands_rule jp.wantsAvail (·.numAvailSlots) (Q := AtOnce jp)
    (fun n hn => hn.2.le) (fun i hi => (h.cand_at hi).1) (fun i nSlots hi hle hnon =>
      ⟨hi, rfl, (min_eq_right hle).symm, min_le_left _ _, le_min (h.cand_at hi).1 hnon⟩) hM (addAvail_spec hM hbor)).1

theorem backfillCands_avail_le (h : jp.Sound) (hM : Bounds jp jp.wantsAvail (·.numAvailSlots) M) (hpos : 0 ≤ M) :
    (backfillCands jp).numAvailEligProc ≤ M := by
  have hle := (borrow_grants h hM hpos).le
  unfold backfillCands
  dsimp only
  split <;> exact hle

theorem backfillCands_dealt (h : jp.Sound) : Dealt jp (backfillCands jp) := by
  have ha := borrow_grants h (.maxNumProcessors _ _) (h.procs.1.trans h.procs.2)
  unfold backfillCands
  dsimp only
  split
  case isFalse => exact .atOnce h ha
  case isTrue hf =>
    obtain ⟨hr, hge⟩ := addReserved_spec h ha
    obtain ⟨hmore, hge'⟩ := addCands_rule jp.wantsMore (·.numSlots) (Q := Fits jp)
      (fun n hn => hn.2.le.trans h.procs.2) (fun i hi => (h.cand_at hi).1.trans (h.cand_at hi).2)
      (fun i nSlots hi hle _ => ⟨hi, .inl rfl, hle⟩) (.maxNumProcessors _ _) hr
    exact ⟨hmore.all, hmore.sum, hge.trans hge', hmore.le, fun hge => absurd hf (not_lt.mpr hge)⟩

theorem takeAvail_spec (h : jp.Sound) :
    Grants (AtOnce jp) (min jp.maxNumProcessors jp.numAvailSlots) (takeAvail jp jp.candPtr.zipIdx 0) := by
  have hemp : Grants (AtOnce jp) (min jp.maxNumProcessors jp.numAvailSlots) ([], 0) :=
    ⟨by simp, rfl, le_min (h.procs.1.trans h.procs.2) h.avail.1⟩
  refine (hemp.make (fun _ h => h) fun i m k e hi hgo _ he => ?_).1
  have hc := h.cand_at hi
  obtain ⟨hgo1, hgo2⟩ := hgo
  simp only [Option.some.injEq, Prod.mk.injEq] at he
  obtain ⟨rfl, rfl⟩ := he
  refine ⟨⟨hi, rfl, rfl, (min_le_left _ _).trans (min_le_left _ _), ?_⟩, rfl, by omega, by omega⟩
  dsimp only
  omega

theorem takeMore_spec (h : jp.Sound) (hes : Grants (AtOnce jp) jp.numProcessors (es, n)) :
    Grants (Fits jp) jp.numProcessors (takeMore s jp es n) ∧ n ≤ (takeMore s jp es n).2 := by
  refine hes.deal (fun _ he => he.fits h) fun e m hgo hm he => ?_
  have hs := (he.fits h).slots
  have heq := he.eq
  dsimp only
  split
  · exact ⟨⟨he.lt, .inl he.host, by simpa using hs⟩, rfl, le_rfl, by omega⟩
  · refine ⟨⟨he.lt, .inl he.host, ?_⟩, rfl, by omega, by omega⟩
    dsimp only
    omega

theorem takeOthers_spec (h : jp.Sound) (d : Nat) (hes : Grants (Fits jp) jp.numProcessors (es, n)) :
    Grants (Fits jp) jp.numProcessors (es ++ (takeOthers s jp (jp.candPtr.zipIdx.drop d) n).1,
      (takeOthers s jp (jp.candPtr.zipIdx.drop d) n).2) ∧ n ≤ (takeOthers s jp (jp.candPtr.zipIdx.drop d) n).2 := by
  refine hes.make (fun _ hci => mem_of_mem_drop hci) fun i m k e hi hgo hm he => ?_
  have hc := h.cand_at hi
  split at he <;> simp only [Option.some.injEq, Prod.mk.injEq] at he <;> obtain ⟨rfl, rfl⟩ := he
  · exact ⟨⟨hi, .inr ⟨rfl, le_rfl⟩, hc.1.trans hc.2⟩, rfl, le_rfl, by omega⟩
  · exact ⟨⟨hi, .inl rfl, min_le_left _ _⟩, rfl, by omega, by omega⟩

theorem plainCands_dealt (h : jp.Sound) : Dealt jp (plainCands s jp) ∧
    (plainCands s jp).numAvailEligProc ≤ jp.numAvailSlots ∧
    ((plainCands s jp).numEligProc ≤ jp.numAvailSlots ∨ (plainCands s jp).numEligProc ≤ jp.numProcessors) := by
  obtain ⟨hall, hs, hle⟩ := takeAvail_spec h
  obtain ⟨hmax, ha⟩ := le_min_iff.mp hle
  unfold plainCands
  dsimp only
  split
  case isFalse => exact ⟨.atOnce h ⟨hall, hs, hmax⟩, ha, .inl ha⟩
  case isTrue hf =>
    obtain ⟨hmore, hge⟩ := takeMore_spec (s := s) h ⟨hall, hs, hf.le⟩
    obtain ⟨ho, hge'⟩ := takeOthers_spec (s := s) h (takeAvail jp jp.candPtr.zipIdx 0).1.length hmore
    exact ⟨⟨ho.all, ho.sum, hge.trans hge', ho.le.trans h.procs.2,
      fun hge => absurd hf (not_lt.mpr hge)⟩, ha, .inr ho.le⟩

end

section

variable {jp : JobCands} {s : Mbd}

theorem Fits.less (h : Fits jp e) (hhost : e'.hData = e.hData)
    (hi : e'.indexInCandHostList = e.indexInCandHostList) (hle : e'.numSlots ≤ e.numSlots) : Fits jp e' := by
  refine ⟨hi ▸ h.lt, ?_, ?_⟩
  · rw [hhost, hi]
    exact h.host.imp_right fun hn => ⟨hn.1, hle.trans hn.2⟩
  · rw [hi]
    exact hle.trans h.slots

/-- An entry after its borrowed slots have been taken: at most what `c` has of its own. -/
def ownSlots (c : CandHost) (e : ExecCand) : ExecCand :=
  { e with
    numSlots := min e.numSlots c.numNonBackfillSlots, numAvailSlots := min e.numAvailSlots c.numAvailNonBackfillSlots }

theorem giveBack_eq (c : CandHost) (r : ExecCand × Int × Int) (b : Backfillee) :
    giveBack c r b = (ownSlots c r.1, r.2.1 + (r.1.numSlots - (ownSlots c r.1).numSlots),
      r.2.2 + (r.1.numAvailSlots - (ownSlots c r.1).numAvailSlots)) := by
  have ht : ∀ n own slots : Int, max 0 (slots - (own - (n - slots))) = n - min n own := by
    intro n own slots
    omega
  simp only [giveBack, ownSlots, ht, sub_sub_cancel]

theorem foldl_giveBack_cons (c : CandHost) (b : Backfillee) (bs : List Backfillee) (r : ExecCand × Int × Int) :
    (b :: bs).foldl (giveBack c) r = giveBack c r b := by
  -- the entry has its own slots after the first step, and a step from there changes nothing
  rw [foldl_cons]
  have ha : ∀ b', giveBack c (giveBack c r b) b' = giveBack c r b := by
    intro b'
    rw [giveBack_eq, giveBack_eq]
    simp [ownSlots]
  induction bs with
  | nil => rfl
  | cons b' bs ih => rw [foldl_cons, ha, ih]

/-- Each entry keeps its own slots, and the total is what the entries lose. -/
theorem giveBackAll_own (jp : JobCands) (es : List ExecCand) (t : Int × Int) : (giveBackAll jp es t).1 =
      es.map (fun e => if e.backfilleeList.getD [] = [] then e else ownSlots (jp.candOf e) e) ∧
    (giveBackAll jp es t).2.1 = t.1 + (slotSum es - slotSum (giveBackAll jp es t).1) ∧
    (giveBackAll jp es t).2.2 = t.2 + (availSum es - availSum (giveBackAll jp es t).1) := by
  induction es generalizing t with
  | nil => simp [giveBackAll, slotSum, availSum]
  | cons e es ih =>
    simp only [giveBackAll, map_cons]
    cases hbs : e.backfilleeList.getD [] with
    | nil =>
      obtain ⟨hall, hs, ha⟩ := ih t
      simp only [foldl_nil, if_true, slotSum, availSum, map_cons, sum_cons] at hs ha ⊢
      exact ⟨by rw [hall], by omega, by omega⟩
    | cons b bs =>
      rw [foldl_giveBack_cons, giveBack_eq, if_neg (cons_ne_nil b bs)]
      obtain ⟨hall, hs, ha⟩ := ih (t.1 + (e.numSlots - (ownSlots (jp.candOf e) e).numSlots),
        t.2 + (e.numAvailSlots - (ownSlots (jp.candOf e) e).numAvailSlots))
      simp only [slotSum, availSum, map_cons, sum_cons] at hs ha ⊢
      exact ⟨by rw [hall], by omega, by omega⟩

theorem giveBackAll_le (jp : JobCands) (es : List ExecCand) : slotSum (giveBackAll jp es (0, 0)).1 ≤ slotSum es ∧
    availSum (giveBackAll jp es (0, 0)).1 ≤ availSum es := by
  rw [(giveBackAll_own jp es (0, 0)).1, slotSum, availSum, map_map, map_map]
  refine ⟨sum_le_sum fun e _ => ?_, sum_le_sum fun e _ => ?_⟩ <;> dsimp only [Function.comp] <;> split
  · exact le_rfl
  · exact min_le_left _ _
  · exact le_rfl
  · exact min_le_left _ _

/-- What `doBackfill` leaves is less, and is what was dealt if the job gets its processors at once. -/
theorem doBackfill_spec (h : Dealt jp g) : (∀ e ∈ (doBackfill jp g).execCandPtr, Fits jp e) ∧
      slotSum (doBackfill jp g).execCandPtr = (doBackfill jp g).numEligProc ∧
      (doBackfill jp g).numEligProc ≤ g.numEligProc ∧ (doBackfill jp g).numAvailEligProc ≤ g.numAvailEligProc ∧
      (jp.numProcessors ≤ (doBackfill jp g).numAvailEligProc → doBackfill jp g = g) := by
  unfold doBackfill
  split
  case isTrue => exact ⟨h.fits, h.sum, le_rfl, le_rfl, fun _ => rfl⟩
  case isFalse hf =>
    obtain ⟨hall, hs, ha⟩ := giveBackAll_own jp g.execCandPtr (0, 0)
    obtain ⟨hle, hle'⟩ := giveBackAll_le jp g.execCandPtr
    have ho := h.order
    have ht := h.sum
    unfold removeBackfillSlotsFromBackfiller
    dsimp only at hs ha ⊢
    refine ⟨?_, by omega, by omega, by omega, fun hge => by omega⟩
    rw [hall, forall_mem_map]
    intro e he
    split
    · exact h.fits e he
    · exact (h.fits e he).less rfl rfl (min_le_left _ _)

theorem Dealt.getBackfillSlotsOnExecCandHost (h : Dealt jp g) : Dealt jp (getBackfillSlotsOnExecCandHost jp g) := by
  have hkeep : ∀ e : ExecCand, ∃ bs,
      (match (jp.cand e.indexInCandHostList).backfilleeList.getD [] with
      | [] => e
      | b :: bs => { e with backfilleeList := some (lendOn e.numAvailSlots e.indexInCandHostList (b :: bs) 0) }) =
        { e with backfilleeList := bs } := by
    intro e
    split
    · exact ⟨e.backfilleeList, rfl⟩
    · exact ⟨_, rfl⟩
  choose lists hl using hkeep
  have hexec : (OpenLava.Dispatch.getBackfillSlotsOnExecCandHost jp g).execCandPtr =
      g.execCandPtr.map fun e => { e with backfilleeList := lists e } :=
    map_congr_left fun e _ => hl e
  refine ⟨?_, ?_, h.order, h.max, fun hge => ⟨(h.enough hge).1, ?_⟩⟩
  · rw [hexec, forall_mem_map]
    intro e he
    exact (h.fits e he).less rfl rfl le_rfl
  · rw [hexec, slotSum, map_map]
    exact h.sum
  · rw [hexec, forall_mem_map]
    intro e he
    obtain ⟨hlt, hhost, heq, ha, hn⟩ := (h.enough hge).2 e he
    exact ⟨hlt, hhost, heq, ha, hn⟩

theorem getNumProcs_dealt (h : jp.Sound) (s : Mbd) : ∃ g, Dealt jp g ∧
    (∀ e ∈ (getNumProcs s jp).execCandPtr, Fits jp e) ∧
    slotSum (getNumProcs s jp).execCandPtr = (getNumProcs s jp).numEligProc ∧
    (getNumProcs s jp).numEligProc ≤ g.numEligProc ∧ (getNumProcs s jp).numAvailEligProc ≤ g.numAvailEligProc ∧
    (jp.numProcessors ≤ (getNumProcs s jp).numAvailEligProc → getNumProcs s jp = g) ∧
    (jp.backfills = false → g.numAvailEligProc ≤ jp.numAvailSlots ∧
      (g.numEligProc ≤ jp.numAvailSlots ∨ g.numEligProc ≤ jp.numProcessors)) := by
  unfold getNumProcs
  split
  case isTrue hb =>
    have hd := backfillCands_dealt h
    obtain ⟨hf, hs, hle, ha, he⟩ := doBackfill_spec hd
    exact ⟨_, hd, hf, hs, hle, ha, he, fun hno => absurd hb (by simp [hno])⟩
  case isFalse hb =>
    obtain ⟨hd, hpla⟩ := plainCands_dealt (s := s) h
    split
    · have hd' := hd.getBackfillSlotsOnExecCandHost
      obtain ⟨hf, hs, hle, ha, he⟩ := doBackfill_spec hd'
      exact ⟨_, hd', hf, hs, hle, ha, he, fun _ => hpla⟩
    · exact ⟨_, hd, hd.fits, hd.sum, le_rfl, le_rfl, fun _ => rfl, fun _ => hpla⟩

theorem getNumProcs_fits (h : jp.Sound) (s : Mbd) : ∀ e ∈ (getNumProcs s jp).execCandPtr, Fits jp e :=
  have ⟨_, _, hf, _⟩ := getNumProcs_dealt h s
  hf

/-- The execution candidates add up, and are within all limits of the job. -/
structure WithinLimits (jp : JobCands) (g : Granted) : Prop where
  sum : slotSum g.execCandPtr = g.numEligProc
  slots : g.numEligProc ≤ min jp.numSlots jp.maxNumProcessors
  avail : g.numAvailEligProc ≤ jp.numAvailSlots
  fits : ∀ e ∈ g.execCandPtr, Fits jp e

/-- The job borrows slots as soon as a candidate has a list of backfillees. -/
def JobCands.mayBorrow (jp : JobCands) : Bool := jp.canBackfill && !jp.hostPreference && !jp.allInOne

theorem JobCands.backfills_eq (jp : JobCands) : jp.backfills = (jp.mayBorrow && jobHasBackfillee jp) := by
  unfold JobCands.backfills JobCands.mayBorrow
  cases jobHasBackfillee jp <;> simp

/-- The limits that `getNumProcs` keeps whatever the candidates are. The loops for a job that borrows stop at
`maxNumProcessors`, those for slots to be reserved at `numProcessors`, and none of them starts at a limit of 0. -/
def JobCands.LimitsFit (jp : JobCands) : Prop :=
  if jp.mayBorrow then
    jp.maxNumProcessors ≤ jp.numAvailSlots ∨
      jp.numAvailSlots = 0 ∧ (jp.numProcessors = 0 ∨ jp.numSlots = 0 ∨ jp.maxNumProcessors ≤ jp.numSlots)
  else jp.numProcessors ≤ jp.numSlots ∨ jp.numSlots = 0

instance (jp : JobCands) : Decidable jp.LimitsFit := inferInstanceAs (Decidable (ite _ _ _))

theorem backfillCands_avail_zero (ha : jp.numAvailSlots = 0) : (backfillCands jp).numAvailEligProc = 0 ∧
    (jp.numProcessors = 0 ∨ jp.numSlots = 0 → (backfillCands jp).numEligProc = 0) := by
  have hgo : ¬ jp.wantsAvail 0 := fun hn => (ha ▸ hn.1).false
  have hbor : borrow jp (sortBackfillee jp) [] 0 = ([], 0) := by
    cases sortBackfillee jp with
    | nil => rfl
    | cons => exact if_neg hgo
  have havail : addCands jp jp.wantsAvail (·.numAvailSlots) (addAvail jp [] 0).1 (addAvail jp [] 0).2 = ([], 0) := by
    simp [addCands, addAvail, deal, make_stop hgo]
  simp only [backfillCands, hbor, havail]
  split
  case isFalse => exact ⟨rfl, fun _ => rfl⟩
  case isTrue hpos =>
    refine ⟨rfl, fun hzero => ?_⟩
    have hgo : ¬ jp.wantsMore 0 := fun hn => by rcases hzero with h | h <;> have := hn.1 <;> omega
    simp [addCands, addReserved, deal, make_stop hgo]

theorem plainCands_slots_zero (h : jp.Sound) (hs : jp.numSlots = 0) : (plainCands s jp).numEligProc = 0 := by
  have ha := h.avail
  have hgo : ¬ jp.wantsAvail 0 := fun hn => by have := hn.1; omega
  have hgo' : ¬ jp.wantsMore 0 := fun hn => by have := hn.1; omega
  have hava : takeAvail jp jp.candPtr.zipIdx 0 = ([], 0) := make_stop hgo _
  simp only [plainCands, hava]
  split
  · simp [takeMore, takeOthers, deal, make_stop hgo']
  · rfl

theorem getNumProcs_withinLimits (h : jp.Sound) (hfit : jp.LimitsFit) (s : Mbd) :
    WithinLimits jp (getNumProcs s jp) := by
  have hl := h.avail
  unfold JobCands.LimitsFit at hfit
  unfold getNumProcs
  split
  case isTrue hb =>
    have hd := backfillCands_dealt h
    obtain ⟨hf, hs, hle, ha, -⟩ := doBackfill_spec hd
    have hmax := hd.max
    have ho := hd.order
    rw [JobCands.backfills_eq, Bool.and_eq_true] at hb
    rw [if_pos hb.1] at hfit
    rcases hfit with hfit | ⟨hzero, hfit⟩
    · exact ⟨hs, by omega, by omega, hf⟩
    · obtain ⟨hava, helig⟩ := backfillCands_avail_zero hzero
      refine ⟨hs, ?_, by omega, hf⟩
      rcases hfit with hfit | hfit | hfit
      · have := helig (.inl hfit); omega
      · have := helig (.inr hfit); omega
      · omega
  case isFalse hb =>
    obtain ⟨hd, hpa, hps⟩ := plainCands_dealt (s := s) h
    have hmax := hd.max
    have hpro := h.procs
    have hslots : (plainCands s jp).numEligProc ≤ jp.numSlots := by
      by_cases hzero : jp.numSlots = 0
      · rw [plainCands_slots_zero h hzero, hzero]
      · split_ifs at hfit <;> omega
    dsimp only
    split
    · obtain ⟨hf, hs, hle, ha, -⟩ := doBackfill_spec hd.getBackfillSlotsOnExecCandHost
      have hge : (getBackfillSlotsOnExecCandHost jp (plainCands s jp)).numEligProc = (plainCands s jp).numEligProc := rfl
      have hge' : (getBackfillSlotsOnExecCandHost jp (plainCands s jp)).numAvailEligProc =
        (plainCands s jp).numAvailEligProc := rfl
      exact ⟨hs, by omega, by omega, hf⟩
    · exact ⟨hd.sum, by omega, hpa, hd.fits⟩

/-- A job that borrows has less than `B` before its last candidate, which gives it `B` at most. -/
theorem getNumProcs_avail_le (h : jp.Sound) (ha : jp.numAvailSlots ≤ B)
    (hc : ∀ c ∈ jp.candPtr, c.numAvailSlots ≤ B) (s : Mbd) :
    (getNumProcs s jp).numAvailEligProc ≤ if jp.backfills then max 0 (2 * B - 1) else B := by
  unfold getNumProcs
  split
  · have hM : Bounds jp jp.wantsAvail (·.numAvailSlots) (max 0 (2 * B - 1)) := fun i m k hi hgo hk _ => by
      have hb := hk.trans (hc _ (cand_mem hi))
      have hm := hgo.1
      omega
    exact (doBackfill_spec (backfillCands_dealt h)).2.2.2.1.trans (backfillCands_avail_le h hM (le_max_left _ _))
  · obtain ⟨hd, hpa, -⟩ := plainCands_dealt (s := s) h
    dsimp only
    split
    · exact (doBackfill_spec hd.getBackfillSlotsOnExecCandHost).2.2.2.1.trans (hpa.trans ha)
    · exact hpa.trans ha

/-- A candidate with `n` slots to be borrowed. -/
def allLent (hData : HRef) (n : Int) : CandHost where
  hData := hData
  numSlots := n
  numAvailSlots := n
  backfilleeList := some [{ backfilleePtr := 0, backfillSlots := n }]

/-- A candidate with `n` slots that can only be reserved. -/
def toReserve (n : Int) : CandHost where
  hData := 0
  numSlots := n

/-- A job that borrows all it may have. -/
theorem getNumProcs_borrowed (hb : jp.backfills) (hstop : ¬ jp.wantsAvail (borrow jp (sortBackfillee jp) [] 0).2)
    (hpro : jp.numProcessors ≤ (borrow jp (sortBackfillee jp) [] 0).2) (s : Mbd) :
    (getNumProcs s jp).numAvailEligProc = (borrow jp (sortBackfillee jp) [] 0).2 := by
  rw [getNumProcs, if_pos hb]
  simp only [backfillCands, addAvail, addCands, deal_stop hstop, make_stop hstop, not_lt.mpr hpro, if_false, doBackfill,
    hpro, if_true]

theorem getNumProcs_lends_all (h : jp.Sound) (hb : jp.mayBorrow) (ha : 0 < jp.numAvailSlots)
    (hpos : 0 < jp.maxNumProcessors) (s : Mbd) :
    (getNumProcs s { jp with candPtr := [allLent 0 jp.maxNumProcessors] }).numAvailEligProc = jp.maxNumProcessors := by
  have hb' : { jp with candPtr := [allLent 0 jp.maxNumProcessors] }.backfills := by
    rw [JobCands.backfills_eq, Bool.and_eq_true]
    exact ⟨hb, rfl⟩
  have hbor : (borrow { jp with candPtr := [allLent 0 jp.maxNumProcessors] }
      (sortBackfillee { jp with candPtr := [allLent 0 jp.maxNumProcessors] }) [] 0).2 = jp.maxNumProcessors := by
    simp [sortBackfillee, allLent, insertIntoSortedBackfilleeList, borrow, borrowOn, JobCands.cand, ha, hpos]
  rw [getNumProcs_borrowed hb' ?_ ?_, hbor] <;> rw [hbor]
  · exact fun hgo => hgo.2.false
  · exact h.procs.2

theorem getNumProcs_reserves_all (h : jp.Sound) (hb : jp.mayBorrow) (ha : jp.numAvailSlots = 0)
    (hs : 0 < jp.numSlots) (hpos : 0 < jp.numProcessors) (s : Mbd) :
    (getNumProcs s { jp with candPtr := [{ toReserve jp.maxNumProcessors with backfilleeList := some [] }] }).numEligProc =
      jp.maxNumProcessors := by
  have hb' : jp.canBackfill = true ∧ jp.hostPreference = false ∧ jp.allInOne = false := by
    simpa [JobCands.mayBorrow, and_assoc] using hb
  have hpro := h.procs
  have hne : jp.maxNumProcessors ≠ 0 := by omega
  simp [toReserve, getNumProcs, JobCands.backfills, hb', jobHasBackfillee, backfillCands, sortBackfillee, borrow, addAvail,
    addReserved, addCands, candHostInBackfillCandList, deal, make, ha, hs, hpos, hne, JobCands.wantsAvail,
    JobCands.wantsMore, doBackfill, hpro.2]

theorem getNumProcs_reserves_procs (h : jp.Sound) (hs : 0 < jp.numSlots) (hlt : jp.numSlots < jp.numProcessors)
    (host : ¬ allReserved s 0) :
    (getNumProcs s { jp with candPtr := [toReserve jp.numProcessors] }).numEligProc = jp.numProcessors := by
  have hpos : 0 < jp.numProcessors := hs.trans hlt
  have hmax : 0 < jp.maxNumProcessors := hpos.trans_le h.procs.2
  have ha := h.avail.1
  rcases ha.lt_or_eq with ha' | ha'
  · simp [toReserve, getNumProcs, JobCands.backfills, jobHasBackfillee, plainCands, takeAvail, takeMore, takeOthers,
      deal, make, JobCands.wantsAvail, JobCands.wantsMore, JobCands.cand, hs, hpos, hmax, ha', host]
  · simp [toReserve, getNumProcs, JobCands.backfills, jobHasBackfillee, plainCands, takeAvail, takeMore, takeOthers, deal, make,
      JobCands.wantsAvail, JobCands.wantsMore, hs, hpos, ← ha', host]

/-- The slots of one's own are left, and what is taken is counted. -/
theorem removeBackfillSlotsFromBackfiller_own (jp : JobCands) (g : Granted) :
    (removeBackfillSlotsFromBackfiller jp g).execCandPtr = g.execCandPtr.map (fun e =>
      if e.backfilleeList.getD [] = [] then e
      else { e with
        numSlots := min e.numSlots (jp.candOf e).numNonBackfillSlots
        numAvailSlots := min e.numAvailSlots (jp.candOf e).numAvailNonBackfillSlots }) ∧
    g.numEligProc - (removeBackfillSlotsFromBackfiller jp g).numEligProc =
      slotSum g.execCandPtr - slotSum (removeBackfillSlotsFromBackfiller jp g).execCandPtr ∧
    g.numAvailEligProc - (removeBackfillSlotsFromBackfiller jp g).numAvailEligProc =
      availSum g.execCandPtr - availSum (removeBackfillSlotsFromBackfiller jp g).execCandPtr ∧
    (g.numEligProc < jp.numProcessors → ∀ e ∈ (doBackfill jp g).execCandPtr, e.backfilleeList.getD [] ≠ [] →
      e.numSlots ≤ (jp.candOf e).numNonBackfillSlots ∧ e.numAvailSlots ≤ (jp.candOf e).numAvailNonBackfillSlots) := by
  obtain ⟨ha, hs, hava⟩ := giveBackAll_own jp g.execCandPtr (0, 0)
  refine ⟨ha, ?_, ?_, ?_⟩
  · simp only [removeBackfillSlotsFromBackfiller]
    omega
  · simp only [removeBackfillSlotsFromBackfiller]
    omega
  · intro hf e he hne
    have hdo : doBackfill jp g = removeBackfillSlotsFromBackfiller jp g := if_neg (not_le.mpr hf)
    rw [hdo] at he
    rw [show (removeBackfillSlotsFromBackfiller jp g).execCandPtr = _ from ha] at he
    obtain ⟨e, -, rfl⟩ := mem_map.mp he
    by_cases he : e.backfilleeList.getD [] = []
    · rw [if_pos he] at hne
      exact absurd he hne
    · rw [if_neg he]
      exact ⟨min_le_right _ _, min_le_right _ _⟩

end

def threeOfFour : JobCands where
  numProcessors := 3
  maxNumProcessors := 5
  numSlots := 3
  numAvailSlots := 3
  canBackfill := true
  candPtr := [
    { hData := 1, numSlots := 2, numAvailSlots := 2, backfilleeList := some [{ backfilleePtr := 7, backfillSlots := 2 }] },
    { hData := 2, numSlots := 2, numAvailSlots := 2, backfilleeList := some [{ backfilleePtr := 7, backfillSlots := 2 }] }]

def threeFree : JobCands := { threeOfFour with canBackfill := false }

def fiveOfThree : JobCands where
  numProcessors := 5
  maxNumProcessors := 5
  numSlots := 3
  numAvailSlots := 3
  candPtr := [{ hData := 1, numSlots := 2 }, { hData := 2, numSlots := 2 }]

section

variable {jp : JobCands}

structure JobCands.Offers (jp : JobCands) : Prop where
  cand : ∀ c ∈ jp.candPtr, 0 ≤ c.numSlots ∧ 0 ≤ c.numAvailSlots
  lent : ∀ c ∈ jp.candPtr, ∀ b ∈ c.backfilleeList.getD [], 0 ≤ b.backfillSlots
  avail : 0 ≤ jp.numAvailSlots ∧ jp.numAvailSlots ≤ jp.numSlots
  procs : 0 ≤ jp.numProcessors ∧ jp.numProcessors ≤ jp.maxNumProcessors

theorem getNumSlotsLoop_perm (seen rest : List CandHost) (n a : Int) :
    (getNumSlotsLoop jp seen rest n a).1.Perm (seen ++ rest.map (clampCand jp)) := by
  induction rest generalizing seen n a with
  | nil => simp [getNumSlotsLoop]
  | cons c rest ih =>
    have hlast : ∀ n a, (getNumSlotsLoop jp (seen ++ [clampCand jp c]) rest n a).1.Perm
        (seen ++ (c :: rest).map (clampCand jp)) := fun n a => by simpa using ih (seen ++ [clampCand jp c]) n a
    simp only [getNumSlotsLoop]
    split
    · split
      · exact (ih (clampCand jp c :: seen) _ _).trans (by simpa using perm_middle.symm)
      · exact hlast _ _
    · exact hlast _ _

theorem getNumSlots_perm (jp : JobCands) : (getNumSlots jp).candPtr.Perm (jp.candPtr.map (clampCand jp)) := by
  exact getNumSlotsLoop_perm [] jp.candPtr 0 0

theorem clampCand_ordered (h : jp.Offers) (hc : c ∈ jp.candPtr) :
    0 ≤ (clampCand jp c).numAvailSlots ∧ (clampCand jp c).numAvailSlots ≤ (clampCand jp c).numSlots := by
  have hcand := h.cand c hc
  have ha := h.avail
  unfold clampCand
  dsimp only
  omega

theorem getNumSlotsLoop_ordered (h : jp.Offers) (seen rest : List CandHost) (hr : ∀ c ∈ rest, c ∈ jp.candPtr)
    (n a : Int) (ha : 0 ≤ a) (han : a ≤ n) : 0 ≤ (getNumSlotsLoop jp seen rest n a).2.2 ∧
      (getNumSlotsLoop jp seen rest n a).2.2 ≤ (getNumSlotsLoop jp seen rest n a).2.1 := by
  induction rest generalizing seen n a with
  | nil => exact ⟨ha, han⟩
  | cons c rest ih =>
    rw [forall_mem_cons] at hr
    have hc := clampCand_ordered h hr.1
    simp only [getNumSlotsLoop]
    split
    · split
      · exact ih _ hr.2 _ _ hc.1 hc.2
      · exact ih _ hr.2 _ _ ha han
    · exact ih _ hr.2 _ _ (by omega) (by omega)

theorem getNumSlots_sound (h : jp.Offers) : (getNumSlots jp).Sound := by
  have hf : ∀ c ∈ (getNumSlots jp).candPtr, ∃ c' ∈ jp.candPtr, clampCand jp c' = c := fun c hc =>
    mem_map.mp ((getNumSlots_perm jp).mem_iff.mp hc)
  have ho := getNumSlotsLoop_ordered h [] jp.candPtr (fun _ hc => hc) 0 0 le_rfl le_rfl
  refine ⟨fun c hc => ?_, fun c hc => ?_, ?_, h.procs⟩
  · obtain ⟨c', hc', rfl⟩ := hf c hc
    exact clampCand_ordered h hc'
  · obtain ⟨c', hc', rfl⟩ := hf c hc
    exact h.lent c' hc'
  · have ha := h.avail
    unfold getNumSlots
    dsimp only
    omega

end

end OpenLava.Dispatch

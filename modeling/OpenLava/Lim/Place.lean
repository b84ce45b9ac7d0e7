import OpenLava.Lim.Master

/-!
# Placement

`lim.policy.c` after the candidates of a request are found: they are sorted by status and load, the local host is
compared with the last of them, and instances are spread over them.
-/

namespace OpenLava.Place

open List Function Lim

def R15S : Nat := 0
def R1M : Nat := 1
def R15M : Nat := 2
def LS : Nat := 6
def IT : Nat := 7

def LIM_UNAVAIL : BitVec 32 := 0x00010000
def LIM_LOCKED : BitVec 32 := 0x00020000 ||| 0x00040000 ||| 0x00200000
def LIM_BUSY : BitVec 32 := 0x00080000
def LIM_DOWN : BitVec 32 := 0x00100000 ||| 0x00400000
def LIM_OK_MASK : BitVec 32 := 0x00bf0000

/-- What `candidates[i]` points to; the two words of `status` the functions look at. -/
structure Cand where
  hPtr : HostNode
  (status0 status1 : BitVec 32 := 0)
  conStatus : Bool := true
  loadIndex : Nat → ℚ := fun _ => 0
  (availLow availHigh use : Int := 0)

structure SortEnv where
  fromHostPtr : Option HostNode
  ignore_res : Bool
  increasing : Nat → Bool -- `li[i].increasing`
  loadIndexValue : Nat → Cand → ℚ -- `loadIndexValue` under the options of the request

structure SortFlags where
  (SORT_CUT SORT_FINAL SORT_SINDX SORT_INCR : Bool := false)

/-- The tests for moving a host with the first word to the front of one with the second. -/
def better (ignore_res : Bool) (status2 status1 : BitVec 32) : Bool :=
  let has (status bits : BitVec 32) : Bool := status &&& bits ≠ 0
  let isOk (status : BitVec 32) : Bool := status &&& LIM_OK_MASK = 0
  let isOkNRes (status : BitVec 32) : Bool := status &&& ~~~LIM_DOWN = 0
  (ignore_res && isOkNRes status2 && !isOkNRes status1) || (!ignore_res && isOk status2 && !isOk status1) ||
    (!ignore_res && isOkNRes status2 && (has status1 LIM_BUSY || has status1 LIM_LOCKED)) ||
    (!has status2 LIM_UNAVAIL && has status1 LIM_UNAVAIL) || (has status2 LIM_BUSY && has status1 LIM_LOCKED)

/-- `orderByStatus` means to look past the idle time of the local host, and clears the bit in the host. -/
def Cand.clearIdle (fromHostPtr : Option HostNode) (c : Cand) : Cand :=
  if fromHostPtr = some c.hPtr then { c with status1 := c.status1 &&& ~~~(1#32 <<< IT) } else c

def notOrdered (incr : Bool) (a b : ℚ) : Bool := if incr then a > b else a < b

section

variable (E : SortEnv)

/-- The inner loop of `bsort`, from the back to the front. -/
def pass (incr : Bool) (key : Cand → ℚ) : List Cand → List Cand × Bool
  | [] => ([], false)
  | a :: l =>
    match pass incr key l with
    | ([], swapped) => ([a], swapped)
    | (b :: l, swapped) =>
      let a := a.clearIdle E.fromHostPtr
      let b := b.clearIdle E.fromHostPtr
      if better E.ignore_res b.status0 a.status0 then (b :: a :: l, true)
      else if better E.ignore_res a.status0 b.status0 ∨ (a.status0 &&& b.status0 &&& LIM_UNAVAIL ≠ 0) then (a :: b :: l, swapped)
      else if notOrdered incr (key a) (key b) then (b :: a :: l, true)
      else (a :: b :: l, swapped)

/-- The outer loop, which ends after a pass without a swap. -/
def sortLoop (incr : Bool) (key : Cand → ℚ) : Nat → List Cand → List Cand
  | 0, l => l
  | i + 1, l =>
    match pass E incr key l with
    | (c :: l, true) => c :: sortLoop incr key i l
    | (l, _) => l

/-- The load index an entry of `order` stands for in `bsort`. -/
def sortIndex (lidx : Int) : Int := |lidx| - 1

/-- How many candidates are cut off, or kept by a final sort. -/
def cutoffs (lidx : Int) (numHosts : Nat) (flags : SortFlags) (ncand : Nat) : Nat :=
  let idx := (sortIndex lidx).toNat
  let shrink := if idx = R15S ∨ idx = R1M ∨ idx = R15M ∨ idx = LS then 5 else 8
  if !flags.SORT_CUT then ncand
  else if flags.SORT_FINAL then min ncand numHosts
  else if ncand ≤ numHosts then 0
  else (ncand - numHosts - 1) / shrink + 1

/-- The passes that the sort makes at most. -/
def rounds (lidx : Int) (numHosts : Nat) (flags : SortFlags) (ncand : Nat) : Nat :=
  if flags.SORT_FINAL then cutoffs lidx numHosts flags ncand
  else ncand - cutoffs lidx numHosts flags ncand

/-- The candidates as they are sorted, and how many are selected. -/
def bsort (lidx : Int) (nec numHosts : Nat) (threshold : ℚ) (flags : SortFlags) (l : List Cand) : List Cand × Nat :=
  let idx := (sortIndex lidx).toNat
  let incr := if flags.SORT_SINDX then !flags.SORT_INCR else E.increasing idx ^^ decide (lidx < 0)
  let coef : ℚ := nec / (20 * numHosts)
  let exld (c : Cand) : ℚ :=
    if flags.SORT_SINDX ∨ c.conStatus then 0
    else if E.increasing idx then c.loadIndex idx * coef
    else -(c.loadIndex idx * coef)
  let key (c : Cand) := E.loadIndexValue idx c + exld c
  let kept := rounds lidx numHosts flags l.length
  let sorted := sortLoop E incr key kept l
  if flags.SORT_FINAL then (sorted, kept)
  else
    let bestload := match l.map (E.loadIndexValue idx) with
      | [] => 0
      | v :: vs => vs.foldl (fun best v => if notOrdered incr best v then v else best) v
    let near := (sorted.drop kept).takeWhile fun c => |E.loadIndexValue idx c - bestload| < threshold
    (sorted, kept + near.length)

/-- The first loop for `LOCALITY`, up to a host that has more than what is needed. -/
def findLarge (numIndx n : Nat) (needed : Int) : Nat → List Cand → List Cand × Bool
  | _, [] => ([], false)
  | i, c :: l =>
    if c.availHigh > needed then ({ c with use := needed } :: l, true)
    else
      let (l, found) := findLarge numIndx n needed (i + 1) l
      ({ c with loadIndex := update c.loadIndex numIndx (c.availHigh + (n - i : ℚ) / n) } :: l, found)

def fill : Int → List Cand → List Cand
  | _, [] => []
  | needed, c :: l =>
    if needed > 0 then { c with use := min needed c.availHigh } :: fill (needed - min needed c.availHigh) l else c :: l

def fillLow (n : Nat) : Nat → Int → List Cand → Int × List Cand
  | _, needed, [] => (needed, [])
  | i, needed, c :: l =>
    if needed > 0 then
      let avail := if needed ≤ c.availHigh ∧ i < n / 2 then c.availHigh else c.availLow
      let use := c.use + min needed avail
      let (needed, l) := fillLow n (i + 1) (needed - use) l
      (needed, { c with use } :: l)
    else (needed, c :: l)

def fillHigh : Int → List Cand → List Cand
  | _, [] => []
  | needed, c :: l =>
    if needed > 0 then
      let avail := c.availHigh - c.availLow
      if avail = 0 then c :: fillHigh needed l
      else
        { c with use := c.use + min needed avail, availHigh := c.availHigh - min needed avail } ::
          fillHigh (needed - min needed avail) l
    else c :: l

/-- The candidates in the order in which `LOCALITY` fills them. -/
def byLocality (numIndx : Nat) (l : List Cand) : List Cand :=
  (bsort { E with loadIndexValue := fun i c => c.loadIndex i } numIndx 0 l.length 0
    { SORT_FINAL := true, SORT_SINDX := true, SORT_INCR := true } l).1

def selectBestInstances (numIndx : Nat) (needed : Int) (locality : Bool) (l : List Cand) : List Cand :=
  let l := l.map fun c => { c with use := 0 }
  if locality then
    match findLarge numIndx l.length needed 0 l with
    | (l, true) => l
    | (l, false) => fill needed (byLocality E numIndx l)
  else
    let (needed, l) := fillLow l.length 0 needed l
    if needed > 0 then fillHigh needed l else l

variable {E}

theorem clearIdle_clearIdle (h : Option HostNode) (c : Cand) : (c.clearIdle h).clearIdle h = c.clearIdle h := by
  unfold Cand.clearIdle
  split_ifs
  · simp [BitVec.and_assoc]
  · rfl

/-- The candidates are put in another order; nothing `g` looks at changes. -/
def Reordered (E : SortEnv) {α : Type} (g : Cand → α) (l l' : List Cand) : Prop :=
  (∀ c ∈ l', g (c.clearIdle E.fromHostPtr) = g c) ∧ l'.map g ~ l.map g

variable {α : Type} {g : Cand → α} {incr : Bool} {key : Cand → ℚ}

theorem pass_reordered (h : ∀ c ∈ l, g (c.clearIdle E.fromHostPtr) = g c) : Reordered E g l (pass E incr key l).1 := by
  induction l with
  | nil => exact ⟨h, .refl _⟩
  | cons a l ih =>
    obtain ⟨ha, hl⟩ := forall_mem_cons.mp h
    have hr := ih hl
    unfold pass
    match hp : pass E incr key l with
    | ([], swapped) =>
      rw [hp] at hr
      exact ⟨forall_mem_cons.mpr ⟨ha, hr.1⟩, hr.2.cons _⟩
    | (b :: r, swapped) =>
      rw [hp] at hr
      obtain ⟨hb, hrest⟩ := forall_mem_cons.mp hr.1
      have hkeep : Reordered E g (a :: l) (a.clearIdle E.fromHostPtr :: b.clearIdle E.fromHostPtr :: r) := by
        refine ⟨by simpa [clearIdle_clearIdle] using hrest, ?_⟩
        simpa [ha, hb] using hr.2
      have hs : Reordered E g (a :: l) (b.clearIdle E.fromHostPtr :: a.clearIdle E.fromHostPtr :: r) :=
        ⟨fun c hc => hkeep.1 c ((Perm.swap ..).mem_iff.mp hc), ((Perm.swap ..).map g).trans hkeep.2⟩
      dsimp only
      split_ifs
      · exact hs
      · exact hkeep
      · exact hs
      · exact hkeep

theorem sortLoop_reordered (i : Nat) (h : ∀ c ∈ l, g (c.clearIdle E.fromHostPtr) = g c) :
    Reordered E g l (sortLoop E incr key i l) := by
  induction i generalizing l with
  | zero => exact ⟨h, .refl _⟩
  | succ i ih =>
    have hp : Reordered E g l (pass E incr key l).1 := pass_reordered h
    unfold sortLoop
    split
    · next c r hpass =>
      rw [hpass] at hp
      obtain ⟨hc, hr⟩ := forall_mem_cons.mp hp.1
      exact ⟨forall_mem_cons.mpr ⟨hc, (ih hr).1⟩, ((ih hr).2.cons _).trans hp.2⟩
    · next hpass =>
      rw [hpass] at hp
      exact hp

theorem bsort_reordered (h : ∀ c ∈ l, g (c.clearIdle E.fromHostPtr) = g c) (lidx : Int)
    (nec numHosts : Nat) (threshold : ℚ) (flags : SortFlags) : Reordered E g l (bsort E lidx nec numHosts threshold flags l).1 := by
  unfold bsort
  dsimp only
  split_ifs <;> exact sortLoop_reordered _ h

/-- A pass over two candidates or more looks at each of them. -/
theorem pass_clear (l : List Cand) : (∀ c ∈ (pass E incr key l).1, c.clearIdle E.fromHostPtr = c) ∨
    (pass E incr key l).1.length ≤ 1 := by
  induction l with
  | nil => exact .inr (Nat.zero_le _)
  | cons a l ih =>
    unfold pass
    match hp : pass E incr key l with
    | ([], swapped) => exact .inr le_rfl
    | (b :: r, swapped) =>
      rw [hp] at ih
      have hr : ∀ c ∈ r, c.clearIdle E.fromHostPtr = c := by
        rcases ih with h | h
        · exact fun c hc => h c (mem_cons_of_mem _ hc)
        · simp [show r = [] by simpa using h]
      refine .inl ?_
      dsimp only
      split_ifs <;> simpa [clearIdle_clearIdle] using hr

theorem sortLoop_clear {i : Nat} (hi : 0 < i) (h : 2 ≤ l.length) :
    ∀ c ∈ sortLoop E incr key i l, c.clearIdle E.fromHostPtr = c := by
  obtain ⟨i, rfl⟩ := Nat.exists_eq_succ_of_ne_zero hi.ne'
  have hlen : (pass E incr key l).1.length = l.length := by
    simpa using (@pass_reordered E _ (fun _ => ()) incr key l fun _ _ => rfl).2
  have hc := (@pass_clear E incr key l).resolve_right (by omega)
  unfold sortLoop
  split
  · next c r hpass =>
    rw [hpass] at hc
    obtain ⟨hc, hr⟩ := forall_mem_cons.mp hc
    exact forall_mem_cons.mpr ⟨hc, (sortLoop_reordered (g := id) i hr).1⟩
  · next hpass =>
    rw [hpass] at hc
    exact hc

/-- Sorting only reorders the candidates unless it compares any, and the local host is one that is busy by its idle
time. -/
theorem bsort_perm_iff (E : SortEnv) (l : List Cand) (lidx : Int) (nec numHosts : Nat) (threshold : ℚ) (flags : SortFlags) :
    (bsort E lidx nec numHosts threshold flags l).1 ~ l ↔
      l.length ≤ 1 ∨ rounds lidx numHosts flags l.length = 0 ∨ ∀ c ∈ l, c.clearIdle E.fromHostPtr = c := by
  have hsort : ∃ incr key, (bsort E lidx nec numHosts threshold flags l).1 =
      sortLoop E incr key (rounds lidx numHosts flags l.length) l := by
    unfold bsort
    dsimp only
    split_ifs <;> exact ⟨_, _, rfl⟩
  obtain ⟨incr, key, hs⟩ := hsort
  rw [hs]
  constructor
  · intro hperm
    by_contra! hn
    obtain ⟨hlen, hrounds, c, hc, hidle⟩ := hn
    exact hidle (sortLoop_clear (Nat.pos_of_ne_zero hrounds) hlen c (hperm.mem_iff.mpr hc))
  · rintro (hlen | hrounds | hclear)
    · match l with
      | [] => cases rounds lidx numHosts flags 0 <;> exact .refl _
      | [c] => cases rounds lidx numHosts flags 1 <;> exact .refl _
    · rw [hrounds]
      exact .refl _
    · simpa using (sortLoop_reordered (g := id) _ hclear).2

def here : HostNode := ⟨['a'], 0⟩
def there : HostNode := ⟨['b'], 1⟩
def fromHere : SortEnv := ⟨some here, false, fun _ => true, fun i c => c.loadIndex i⟩

/-- The local host is busy by its idle time, and is not any more after the sort. -/
theorem bsort_clears_idle : ¬ ((bsort fromHere 1 0 1 0 { SORT_FINAL := true } [{ hPtr := here, status1 := 128 },
    { hPtr := there }]).1.map fun c => (c.hPtr, c.status1)) ~ [(here, 128), (there, 0)] := by
  decide +kernel

def Cand.offer (c : Cand) : HostNode × Int := (c.hPtr, c.availHigh)

def Cand.Fresh (c : Cand) : Prop := 0 ≤ c.availHigh ∧ c.use = 0

/-- To each host as much as it offers at most, and `total` in all. -/
def Granted (offers : List (HostNode × Int)) (r : List Cand) (total : Int) : Prop :=
  Forall₂ (fun o c => c.hPtr = o.1 ∧ 0 ≤ c.use ∧ c.use ≤ o.2) offers r ∧ (r.map Cand.use).sum = total

theorem Granted.bounds {offers : List (HostNode × Int)} {r : List Cand} {total : Int} (h : Granted offers r total) :
    0 ≤ total ∧ total ≤ (offers.map Prod.snd).sum := by
  obtain ⟨h, rfl⟩ := h
  induction h with
  | nil => exact ⟨le_rfl, le_rfl⟩
  | cons hc _ ih =>
    simp only [map_cons, sum_cons]
    omega

theorem Granted.cons {c c' : Cand} {offers : List (HostNode × Int)} {r : List Cand} {total n : Int} (h : Granted offers r total)
    (hc : c'.hPtr = c.hPtr ∧ 0 ≤ c'.use ∧ c'.use ≤ c.availHigh) (hn : n = c'.use + total) :
    Granted (c.offer :: offers) (c' :: r) n :=
  ⟨.cons hc h.1, by simp [h.2, hn]⟩

theorem map_offer_snd (l : List Cand) : (l.map Cand.offer).map Prod.snd = l.map Cand.availHigh := by
  simp [Function.comp_def, Cand.offer]

theorem granted_none {l : List Cand} (h : ∀ c ∈ l, c.Fresh) : Granted (l.map Cand.offer) l 0 := by
  induction l with
  | nil => exact ⟨.nil, rfl⟩
  | cons c l ih =>
    obtain ⟨hc, hl⟩ := forall_mem_cons.mp h
    exact (ih hl).cons ⟨rfl, hc.2.ge, hc.2 ▸ hc.1⟩ (by simp [hc.2])

theorem fill_granted (hn : 0 ≤ needed) (h : ∀ c ∈ l, c.Fresh) :
    Granted (l.map Cand.offer) (fill needed l) (min needed (l.map Cand.availHigh).sum) := by
  induction l generalizing needed with
  | nil => exact ⟨.nil, by simp [fill, hn]⟩
  | cons c l ih =>
    obtain ⟨hc, hl⟩ := forall_mem_cons.mp h
    have hs := (granted_none hl).bounds.2
    rw [map_offer_snd] at hs
    have hh := hc.1
    unfold fill
    split_ifs with hpos
    · refine (ih (by omega) hl).cons ⟨rfl, by dsimp only; omega, by dsimp only; omega⟩ ?_
      simp only [map_cons, sum_cons]
      omega
    · rw [min_eq_left (by simp only [map_cons, sum_cons]; omega), show needed = 0 by omega]
      exact granted_none h

/-- After the first loop nothing is needed, or every host gives its lower number. -/
theorem fillLow_granted (n i : Nat) (hn : 0 ≤ needed)
    (h : ∀ c ∈ l, 0 ≤ c.availLow ∧ c.availLow ≤ c.availHigh ∧ c.use = 0) :
    0 ≤ (fillLow n i needed l).1 ∧ Granted (l.map Cand.offer) (fillLow n i needed l).2 (needed - (fillLow n i needed l).1) ∧
      (0 < (fillLow n i needed l).1 → (fillLow n i needed l).2 = l.map fun c => { c with use := c.availLow }) := by
  induction l generalizing i needed with
  | nil => exact ⟨hn, ⟨.nil, by simp [fillLow]⟩, fun _ => rfl⟩
  | cons c l ih =>
    obtain ⟨hc, hl⟩ := forall_mem_cons.mp h
    unfold fillLow
    by_cases hpos : needed > 0
    · rw [if_pos hpos]
      dsimp only
      generalize ha : (if needed ≤ c.availHigh ∧ i < n / 2 then c.availHigh else c.availLow) = avail
      have hle : 0 ≤ avail ∧ avail ≤ c.availHigh ∧ (avail = c.availLow ∨ needed ≤ avail) := by
        split_ifs at ha <;> omega
      obtain ⟨hleft, hg, hlow⟩ := ih (i + 1) (by omega : 0 ≤ needed - (c.use + min needed avail)) hl
      refine ⟨hleft, hg.cons ⟨rfl, by dsimp only; omega, by dsimp only; omega⟩ (by ring), fun hmore => ?_⟩
      -- what is left over was needed after this host too
      have hu : c.use + min needed avail = c.availLow := by
        have := hg.bounds.1
        omega
      rw [map_cons, hlow hmore, hu]
    · rw [if_neg hpos]
      refine ⟨hn, ?_, fun h => absurd h hpos⟩
      rw [sub_self]
      exact granted_none fun c hc => ⟨(h c hc).1.trans (h c hc).2.1, (h c hc).2.2⟩

theorem fillHigh_granted (hn : 0 ≤ needed) {l : List Cand}
    (h : ∀ c ∈ l, 0 ≤ c.availLow ∧ c.availLow ≤ c.availHigh ∧ c.use = 0) :
    Granted (l.map Cand.offer) (fillHigh needed (l.map fun c => { c with use := c.availLow }))
      (min (needed + (l.map Cand.availLow).sum) (l.map Cand.availHigh).sum) := by
  induction l generalizing needed with
  | nil => exact ⟨.nil, by simp [fillHigh, hn]⟩
  | cons c l ih =>
    obtain ⟨hc, hl⟩ := forall_mem_cons.mp h
    have hs : (l.map Cand.availLow).sum ≤ (l.map Cand.availHigh).sum := sum_le_sum fun c hc => (hl c hc).2.1
    simp only [map_cons, sum_cons, fillHigh]
    split_ifs with hpos ha
    · exact (ih hn hl).cons ⟨rfl, hc.1, hc.2.1⟩ (by dsimp only; omega)
    · exact (ih (by omega) hl).cons ⟨rfl, by dsimp only; omega, by dsimp only; omega⟩ (by dsimp only; omega)
    · have hrest : fillHigh needed (l.map fun c => { c with use := c.availLow }) = l.map fun c => { c with use := c.availLow } := by
        cases l with
        | nil => rfl
        | cons => simp [fillHigh, hpos]
      have hr := ih hn hl
      rw [hrest] at hr
      exact hr.cons ⟨rfl, hc.1, hc.2.1⟩ (by dsimp only; omega)

theorem findLarge_spec (numIndx n i : Nat) {needed : Int} (hn : 0 ≤ needed) {l : List Cand} (h : ∀ c ∈ l, c.Fresh) :
    ((findLarge numIndx n needed i l).2 = true ∧ Granted (l.map Cand.offer) (findLarge numIndx n needed i l).1 needed) ∨
    ((findLarge numIndx n needed i l).2 = false ∧ (findLarge numIndx n needed i l).1.map Cand.offer = l.map Cand.offer ∧
      ∀ c ∈ (findLarge numIndx n needed i l).1, c.Fresh) := by
  induction l generalizing i with
  | nil => exact .inr ⟨rfl, rfl, h⟩
  | cons c l ih =>
    obtain ⟨hc, hl⟩ := forall_mem_cons.mp h
    unfold findLarge
    split_ifs with hlar
    · exact .inl ⟨rfl, (granted_none hl).cons ⟨rfl, hn, hlar.le⟩ (by simp)⟩
    · obtain ⟨hf, hr⟩ | ⟨hf, ho, hr⟩ := ih (i + 1) hl
      · exact .inl ⟨hf, hr.cons ⟨rfl, hc.2.ge, hc.2 ▸ hc.1⟩ (by simp [hc.2])⟩
      · exact .inr ⟨hf, congrArg (c.offer :: ·) ho, forall_mem_cons.mpr ⟨hc, hr⟩⟩

theorem byLocality_spec (E : SortEnv) (numIndx : Nat) {l : List Cand} (h : ∀ c ∈ l, c.Fresh) :
    (byLocality E numIndx l).map Cand.offer ~ l.map Cand.offer ∧ ∀ c ∈ byLocality E numIndx l, c.Fresh := by
  have hsort : (byLocality E numIndx l).map (fun c => (c.offer, c.use)) ~ l.map fun c => (c.offer, c.use) :=
    (bsort_reordered (fun c _ => by unfold Cand.clearIdle; split_ifs <;> rfl) ..).2
  refine ⟨by simpa [Function.comp_def] using hsort.map Prod.fst, fun c hc => ?_⟩
  obtain ⟨d, hd, hs⟩ := mem_map.mp (hsort.mem_iff.mp (mem_map_of_mem hc))
  obtain ⟨⟨-, hh⟩, hu⟩ : (d.hPtr = c.hPtr ∧ d.availHigh = c.availHigh) ∧ d.use = c.use := by
    simpa [Cand.offer] using hs
  exact ⟨hh ▸ (h d hd).1, hu ▸ (h d hd).2⟩

theorem zeroUse_eq {l : List Cand} (h : ∀ c ∈ l, c.Fresh) : (l.map fun c => { c with use := 0 }) = l :=
  (map_congr_left fun c hc => by rw [← (h c hc).2]; rfl).trans (map_id l)

/-- The instances are spread within what the hosts have, as many as are needed if there are so many. -/
theorem selectBestInstances_granted (E : SortEnv) (numIndx needed : Nat) (locality : Bool) (l : List Cand)
    (h : ∀ c ∈ l, 0 ≤ c.availLow ∧ c.availLow ≤ c.availHigh ∧ c.use = 0) :
    ∃ offers, offers ~ l.map Cand.offer ∧
      Granted offers (selectBestInstances E numIndx needed locality l) (min needed (l.map Cand.availHigh).sum) := by
  have hn : (0 : Int) ≤ needed := Int.natCast_nonneg needed
  have hf : ∀ c ∈ l, c.Fresh := fun c hc => ⟨(h c hc).1.trans (h c hc).2.1, (h c hc).2.2⟩
  unfold selectBestInstances
  rw [zeroUse_eq hf]
  cases locality with
  | true =>
    simp only [if_true]
    have hs := findLarge_spec numIndx l.length 0 hn hf
    generalize findLarge numIndx l.length needed 0 l = large at hs
    obtain ⟨r, found⟩ := large
    obtain ⟨rfl, hr⟩ | ⟨rfl, ho, hr⟩ := hs
    · refine ⟨_, .refl _, ?_⟩
      rwa [min_eq_left (map_offer_snd l ▸ hr.bounds.2)]
    · obtain ⟨hperm, hsor⟩ := byLocality_spec E numIndx hr
      have hr := fill_granted hn hsor
      rw [← map_offer_snd, (hperm.map _).sum_eq, ho, map_offer_snd] at hr
      exact ⟨_, ho ▸ hperm, hr⟩
  | false =>
    refine ⟨_, .refl _, ?_⟩
    have hs := fillLow_granted l.length 0 hn h
    simp only [Bool.false_eq_true, if_false]
    generalize fillLow l.length 0 needed l = low at hs ⊢
    obtain ⟨left, r⟩ := low
    obtain ⟨hl, hr, hlow⟩ := hs
    dsimp only at hl hr hlow ⊢
    split_ifs with hmore
    · obtain rfl := hlow hmore
      have hs : (l.map Cand.availLow).sum = needed - left := by simpa [Function.comp_def] using hr.2
      rw [show (needed : Int) = left + (l.map Cand.availLow).sum by omega]
      exact fillHigh_granted hl h
    · obtain rfl : left = 0 := by omega
      rw [sub_zero] at hr
      rwa [min_eq_left (map_offer_snd l ▸ hr.bounds.2)]

def twoHosts : List Cand := [{ hPtr := here, availHigh := 1 }, { hPtr := there, availHigh := 2 }]

theorem selectBestInstances_granted_two : ∃ offers, offers ~ twoHosts.map Cand.offer ∧
    Granted offers (selectBestInstances fromHere 11 2 false twoHosts) 2 :=
  selectBestInstances_granted fromHere 11 2 false twoHosts (by decide)

end

/-- The loop at the end of `findBestHost`, over `order` from its end: the load index it reads for an entry, until the
local host is `worse`. -/
def compareLocal (worse : Int → Bool) : List Int → List (Int × Int)
  | [] => []
  | lidx :: order => (lidx, lidx) :: if worse lidx then [] else compareLocal worse order

def localReads (fromHostPtr : Option HostNode) (selected : List HostNode) (worse : Int → Bool) (order : List Int) :
    List (Int × Int) :=
  match fromHostPtr with
  | none => []
  | some h => if h ∈ selected then [] else compareLocal worse order.reverse

/-- No load index that is read is the one that was sorted by. -/
theorem localReads_sorted_iff (fromHostPtr : Option HostNode) (selected : List HostNode) (worse : Int → Bool) (order : List Int)
    (numIndx : Nat) : (∀ r ∈ localReads fromHostPtr selected worse order, r.2 = sortIndex r.1 ∧ 0 ≤ r.2 ∧ r.2 < numIndx) ↔
      fromHostPtr = none ∨ (∃ h ∈ selected, fromHostPtr = some h) ∨ order = [] := by
  cases fromHostPtr with
  | none => simp [localReads]
  | some h =>
    by_cases hs : h ∈ selected
    · simp [localReads, hs]
    · cases hr : order.reverse with
      | nil => simp [localReads, compareLocal, reverse_eq_nil_iff.mp hr]
      | cons lidx rest =>
        have hne : order ≠ [] := fun h0 => by simp [h0] at hr
        have hi : lidx ≠ sortIndex lidx := by
          rcases abs_cases lidx with ha | ha <;> simp only [sortIndex, ha] <;> omega
        simp [localReads, hr, hs, compareLocal, hne, hi]

/-- `-r15s` is read in front of the array, and `r1m` by the index behind it. -/
theorem localReads_not_sorted : ¬ ∀ r ∈ localReads (some here) [there] (fun _ => false) [2, -1],
    r.2 = sortIndex r.1 ∧ 0 ≤ r.2 ∧ r.2 < 11 := by
  decide

structure PlaceInfo where
  hostName : List Char
  numtask : Int

/-- `use` is a `short`. -/
def short (n : Int) : Int := n.bmod 65536

/-- The loop of `loadadjReq`; `behind` is what the array has where nothing is set yet. -/
def loadadjLoop (hostList : List HostNode) (behind : Nat → Option HostNode) :
    List PlaceInfo → List HostNode → (HostNode → Int) → List HostNode × (HostNode → Int)
  | [], cands, use => (cands, use)
  | p :: ps, cands, use =>
    match findHostbyList hostList p.hostName with
    | none => loadadjLoop hostList behind ps cands use
    | some h =>
      -- the host is not looked for among the candidates, but at the next free place
      match cands.head?.filter fun _ => behind cands.length = some h with
      | some first => loadadjLoop hostList behind ps cands (Function.update use first (short (use first + p.numtask)))
      | none => loadadjLoop hostList behind ps (cands ++ [h]) (Function.update use h (short p.numtask))

/-- The hosts that `loadAdj` adjusts, with the number of tasks. -/
def loadadjReq (hostList : List HostNode) (behind : Nat → Option HostNode) (ps : List PlaceInfo) : List (HostNode × Int) :=
  let r := loadadjLoop hostList behind ps [] fun _ => 0
  r.1.map fun h => (h, r.2 h)

/-- The places that `initCandList` clears. -/
def candListSize : Nat := 256

/-- The entries for hosts that are known. -/
def entries (hostList : List HostNode) (ps : List PlaceInfo) : List (HostNode × Int) :=
  ps.filterMap fun p => (findHostbyList hostList p.hostName).map (·, p.numtask)

def tasks (l : List (HostNode × Int)) (h : HostNode) : Int := (l.map fun e => if e.1 = h then e.2 else 0).sum

theorem tasks_of_nodup (hl : (l.map Prod.fst).Nodup) (he : e ∈ l) : tasks l e.1 = e.2 := by
  induction l with
  | nil => cases he
  | cons x l ih =>
    obtain ⟨hx, hl⟩ := nodup_cons.mp hl
    have ho : ∀ y ∈ l, y.1 ≠ x.1 := fun y hy hs => hx (hs ▸ mem_map_of_mem hy)
    rw [tasks, map_cons, sum_cons]
    rcases mem_cons.mp he with rfl | he
    · rw [if_pos rfl, map_congr_left fun y hy => if_neg (ho y hy)]
      simp
    · rw [if_neg (ho e he).symm, zero_add]
      exact ih hl he

section

variable {hostList : List HostNode} {behind : Nat → Option HostNode}

theorem entries_none (h : findHostbyList hostList p.hostName = none) (ps : List PlaceInfo) :
    entries hostList (p :: ps) = entries hostList ps := by
  simp [entries, h]

theorem entries_some (hf : findHostbyList hostList p.hostName = some h) (ps : List PlaceInfo) :
    entries hostList (p :: ps) = (h, p.numtask) :: entries hostList ps := by
  simp [entries, hf]

/-- Where no place holds a host by chance, each entry adds a candidate. -/
theorem loadadjLoop_fst (ps : List PlaceInfo) (cands : List HostNode) (use : HostNode → Int)
    (hb : ∀ j, j < cands.length + (entries hostList ps).length → behind j = none) :
    (loadadjLoop hostList behind ps cands use).1 = cands ++ (entries hostList ps).map Prod.fst := by
  induction ps generalizing cands use with
  | nil => simp [loadadjLoop, entries]
  | cons p ps ih =>
    unfold loadadjLoop
    cases hf : findHostbyList hostList p.hostName with
    | none =>
      rw [entries_none hf] at hb ⊢
      exact ih cands use hb
    | some h =>
      rw [entries_some hf, length_cons] at hb
      rw [entries_some hf]
      have hplace : (cands.head?.filter fun _ => behind cands.length = some h) = none := by
        simp [hb cands.length (by omega)]
      simp only [hplace]
      rw [ih _ _ fun j hj => hb j (by simp only [length_append, length_singleton] at hj; omega)]
      simp

theorem loadadjLoop_snd_of_notMem (ps : List PlaceInfo) {cands : List HostNode} (use : HostNode → Int)
    (hb : ∀ j, j < cands.length + (entries hostList ps).length → behind j = none)
    (hx : x ∉ (entries hostList ps).map Prod.fst) : (loadadjLoop hostList behind ps cands use).2 x = use x := by
  induction ps generalizing cands use with
  | nil => rfl
  | cons p ps ih =>
    unfold loadadjLoop
    cases hf : findHostbyList hostList p.hostName with
    | none =>
      rw [entries_none hf] at hb hx
      exact ih use hb hx
    | some h =>
      rw [entries_some hf] at hb hx
      have hplace : (cands.head?.filter fun _ => behind cands.length = some h) = none := by
        simp [hb cands.length (by simp)]
      obtain ⟨hne, hx⟩ := not_or.mp (fun h => hx (mem_cons.mpr h))
      simp only [hplace]
      rw [ih _ (fun j hj => hb j (by simp only [length_append, length_cons] at hj ⊢; simpa [add_assoc, add_comm] using hj)) hx,
        Function.update_of_ne hne]

theorem loadadjLoop_snd (ps : List PlaceInfo) {cands : List HostNode} (use : HostNode → Int)
    (hb : ∀ j, j < cands.length + (entries hostList ps).length → behind j = none)
    (hd : ((entries hostList ps).map Prod.fst).Nodup) :
    ∀ e ∈ entries hostList ps, (loadadjLoop hostList behind ps cands use).2 e.1 = short e.2 := by
  induction ps generalizing cands use with
  | nil => simp [entries]
  | cons p ps ih =>
    unfold loadadjLoop
    cases hf : findHostbyList hostList p.hostName with
    | none =>
      rw [entries_none hf] at hb hd ⊢
      exact ih use hb hd
    | some h =>
      rw [entries_some hf] at hb hd ⊢
      have hplace : (cands.head?.filter fun _ => behind cands.length = some h) = none := by
        simp [hb cands.length (by simp)]
      have hb' : ∀ j, j < (cands ++ [h]).length + (entries hostList ps).length → behind j = none :=
        fun j hj => hb j (by simp only [length_append, length_cons, length_nil] at hj ⊢; omega)
      obtain ⟨hh, hd⟩ := nodup_cons.mp hd
      simp only [hplace]
      refine forall_mem_cons.mpr ⟨?_, ih _ hb' hd⟩
      rw [loadadjLoop_snd_of_notMem ps _ hb' hh, Function.update_self]

theorem mem_of_mem_loadadjLoop (ps : List PlaceInfo) {cands : List HostNode} {use : HostNode → Int}
    (h : x ∈ (loadadjLoop hostList behind ps cands use).1) : x ∈ cands ++ (entries hostList ps).map Prod.fst := by
  induction ps generalizing cands use with
  | nil => simpa [entries, loadadjLoop] using h
  | cons p ps ih =>
    unfold loadadjLoop at h
    cases hf : findHostbyList hostList p.hostName with
    | none =>
      rw [hf] at h
      rw [entries_none hf]
      exact ih h
    | some c =>
      rw [hf] at h
      rw [entries_some hf]
      dsimp only at h
      split at h
      · have := ih h
        simp only [mem_append, map_cons, mem_cons] at this ⊢
        tauto
      · simpa using ih h

/-- A host that the next free place names by chance is not added. -/
theorem loadadjLoop_lost (ps : List PlaceInfo) {cands : List HostNode} (use : HostNode → Int)
    (hb : ∀ j, behind j = if j = candListSize then some x else none) (hc : cands.length ≤ candListSize)
    (hd : (cands ++ (entries hostList ps).map Prod.fst).Nodup)
    (hx : (cands ++ (entries hostList ps).map Prod.fst)[candListSize]? = some x) :
    x ∉ (loadadjLoop hostList behind ps cands use).1 := by
  induction ps generalizing cands use with
  | nil => simp [entries, hc] at hx
  | cons p ps ih =>
    unfold loadadjLoop
    cases hf : findHostbyList hostList p.hostName with
    | none =>
      rw [entries_none hf] at hd hx
      exact ih use hc hd hx
    | some h =>
      rw [entries_some hf, map_cons] at hd hx
      dsimp only
      rcases hc.lt_or_eq with hlt | heq
      · have hplace : (cands.head?.filter fun _ => behind cands.length = some h) = none := by
          simp [hb, hlt.ne]
        simp only [hplace]
        exact ih _ (by simpa using hlt) (by simpa using hd) (by simpa using hx)
      · obtain rfl : h = x := by simpa [← heq] using hx
        obtain ⟨first, rest, rfl⟩ : ∃ first rest, cands = first :: rest :=
          exists_cons_of_length_pos (by rw [heq]; exact Nat.succ_pos _)
        have hplace : behind (first :: rest).length = some h := by rw [heq, hb, if_pos rfl]
        simp only [head?_cons, Option.filter_some, hplace, decide_true, if_true]
        exact fun hmem => (nodup_cons.mp (perm_middle.nodup_iff.mp hd)).1 (mem_of_mem_loadadjLoop ps hmem)

end

/-- Each host is adjusted once, whatever memory holds behind the places that are cleared, exactly if none is named twice,
the others fit in these places, and each number of tasks is a `short`. -/
theorem loadadjReq_once_iff (hostList : List HostNode) (ps : List PlaceInfo) :
    (∀ behind, (∀ j < candListSize, behind j = none) → loadadjReq hostList behind ps =
        ((entries hostList ps).map Prod.fst).dedup.map fun h => (h, tasks (entries hostList ps) h)) ↔
      ((entries hostList ps).map Prod.fst).Nodup ∧ (entries hostList ps).length ≤ candListSize ∧
        ∀ e ∈ entries hostList ps, short e.2 = e.2 := by
  constructor
  · intro h
    have hfst : ∀ behind, (∀ j < candListSize, behind j = none) →
        (loadadjLoop hostList behind ps [] fun _ => 0).1 = ((entries hostList ps).map Prod.fst).dedup := fun behind hb => by
      simpa [loadadjReq, Function.comp_def] using congrArg (map Prod.fst) (h behind hb)
    have hd : ((entries hostList ps).map Prod.fst).Nodup := by
      rw [← List.dedup_eq_self, ← hfst (fun _ => none) fun _ _ => rfl, loadadjLoop_fst ps [] _ fun _ _ => rfl, nil_append]
    refine ⟨hd, ?_, fun e he => ?_⟩
    · by_contra! hlen
      have hx : candListSize < ((entries hostList ps).map Prod.fst).length := by simpa using hlen
      obtain ⟨x, hx⟩ : ∃ x, ((entries hostList ps).map Prod.fst)[candListSize]? = some x := ⟨_, getElem?_eq_getElem hx⟩
      refine @loadadjLoop_lost hostList _ x ps [] (fun _ => 0) (fun j => rfl) (Nat.zero_le _) hd hx ?_
      rw [hfst _ fun j hj => if_neg hj.ne, mem_dedup]
      exact mem_of_getElem? hx
    · have hs := @loadadjLoop_snd hostList (fun _ => none) ps [] (fun _ => 0) (fun _ _ => rfl) hd e he
      have hmem : e.1 ∈ ((entries hostList ps).map Prod.fst).dedup := mem_dedup.mpr (mem_map_of_mem he)
      have h := h (fun _ => none) fun _ _ => rfl
      dsimp only [loadadjReq] at h
      rw [hfst (fun _ => none) fun _ _ => rfl] at h
      rw [← hs, ← tasks_of_nodup hd he]
      exact congrArg Prod.snd (map_inj_left.mp h e.1 hmem)
  · rintro ⟨hd, hlen, hshort⟩ behind hb
    have hb' : ∀ j, j < ([] : List HostNode).length + (entries hostList ps).length → behind j = none :=
      fun j hj => hb j (by simp only [length_nil] at hj; omega)
    dsimp only [loadadjReq]
    rw [loadadjLoop_fst ps [] _ hb', hd.dedup, nil_append, map_map, map_map]
    refine map_congr_left fun e he => ?_
    simp only [Function.comp_apply]
    rw [loadadjLoop_snd ps _ hb' hd e he, hshort e he, tasks_of_nodup hd he]

/-- A host that is named twice is adjusted twice, for its last entry. -/
theorem loadadjReq_twice : loadadjReq [here] (fun _ => none) [⟨['a'], 2⟩, ⟨['a'], 1⟩] = [(here, 1), (here, 1)] := by
  decide

end OpenLava.Place

import OpenLava.Mbd.Backfillees

/-!
# Trying the candidates

If the first execution candidate refuses the job, `dispatchAJob` removes the candidate at the front of `candPtr` and
picks the execution candidates anew. The host that refused is the one at the front only if it was the first to give a
slot.
-/

namespace OpenLava.Dispatch

open List

/-- `enum dispatchAJobReturnCode` -/
inductive DispRet where
  | DISP_OK | DISP_FAIL | DISP_RESERVE | DISP_NO_JOB | DISP_TIME_OUT
  deriving DecidableEq, Repr

structure Setting where
  config : Config := {}
  now : Int := 0
  minProcLimit : Int := 0 -- `minProcLimit` of the queue
  slotHold : Bool := false -- the queue has a positive `slotHoldTime`
  enoughMaxUsableSlots : Bool := true
  (schedDelay dontTryNextCandHost : Bool := false) -- the job is younger than the delay of its queue
  /-- `newReason` after the `k`th call of `dispatch_it`, if the job is not started -/
  dispatch_it : Nat → Option Nat := fun _ => none
  stayTooLong : Nat → Bool := fun _ => false -- `STAY_TOO_LONG` after that call

/-- One call of `dispatch_it`, with `newReason` if refused and the candidate removed then. -/
structure Offer where
  host : HRef
  numHostPtr : Nat
  newReason : Option Nat
  removed : Option HRef
  deriving DecidableEq, Repr

structure Dispatching where
  jp : JobCands
  mbd : Mbd

/-- A turn of the loop in `dispatchAJob`; without a return code another one follows. -/
structure Turn where
  next : Dispatching
  offer : Option Offer := none
  ret : Option DispRet

/-- The slots of the execution candidates, for `allocHosts`. -/
def Granted.slots (g : Granted) : List (HRef × Nat) :=
  g.execCandPtr.filterMap fun e => e.hData.map fun h => (h, e.numSlots.toNat)

/-- The host array that `allocHosts` makes. -/
def Granted.hPtr (g : Granted) : List HRef := g.slots.flatMap fun cand => replicate cand.2 cand.1

/-- `removeCandHost` with index 0; the groups of candidates are not read before the return. -/
def JobCands.removeCandHost (jp : JobCands) : JobCands := { jp with candPtr := jp.candPtr.tail }

/-- After `getNumProcs`, in which `doBackfill` may have freed slots of other jobs. -/
def afterNumProcs (S : Setting) (g : Granted) (d : Dispatching) : Mbd :=
  if d.jp.canBackfill ∧ jobHasBackfillee d.jp ∧ d.jp.numProcessors ≤ g.numEligProc then
    freeBackfillSlotsFromBackfillee S.config S.now d.jp g.execCandPtr d.mbd
  else d.mbd

/-- `dispatchToCandHost` for the `k`th turn, after the reservation was given back. -/
def dispatchToCandHost (S : Setting) (k : Nat) (j : JobRef) (jp : JobCands) (g : Granted) (s : Mbd) : Turn :=
  if g.numEligProc ≤ 0 then { next := ⟨jp, s⟩, ret := some .DISP_NO_JOB }
  else
    let s := allocHosts j g.numEligProc g.slots s
    match g.hPtr with
    -- not reached, since the slots of the execution candidates add up to `numEligProc`
    | [] => { next := ⟨jp, deallocHosts j s⟩, ret := some .DISP_NO_JOB }
    | host :: hPtr =>
      let numHostPtr := (host :: hPtr).length
      if numHostPtr < jp.numProcessors then { next := ⟨jp, deallocHosts j s⟩, ret := some .DISP_NO_JOB }
      else
        match S.dispatch_it k with
        | none => { next := ⟨jp, s⟩, offer := some ⟨host, numHostPtr, none, none⟩, ret := some .DISP_OK }
        | some newReason =>
          let s := deallocHosts j s
          -- a test for bits, although the reasons are numbers
          if newReason &&& PEND_JOB_NO_FILE = 0 then
            let jp' := jp.removeCandHost
            { next := ⟨jp', s⟩, offer := some ⟨host, numHostPtr, some newReason, jp.candPtr.head?.map (·.hData)⟩
              ret :=
                if S.dontTryNextCandHost then some .DISP_FAIL
                else if jp'.candPtr = [] then some .DISP_FAIL
                else if S.stayTooLong k then some .DISP_TIME_OUT
                else none }
          else { next := ⟨jp, s⟩, offer := some ⟨host, numHostPtr, some newReason, none⟩, ret := some .DISP_FAIL }

def turn (S : Setting) (k : Nat) (j : JobRef) (d : Dispatching) : Turn :=
  let g := getNumProcs d.mbd d.jp
  let s := afterNumProcs S g d
  if g.numAvailEligProc < max d.jp.numProcessors S.minProcLimit then
    if ¬ S.slotHold then { next := ⟨d.jp, s⟩, ret := some .DISP_NO_JOB }
    else
      let s := freeReserveSlots j s
      if S.enoughMaxUsableSlots ∧ 0 < g.numEligProc then
        let s := reserveSlots S.config S.now j (allocHosts j g.numEligProc g.slots s)
        { next := ⟨d.jp, s⟩, ret := some .DISP_RESERVE }
      else { next := ⟨d.jp, s⟩, ret := some .DISP_NO_JOB }
  else dispatchToCandHost S k j d.jp g (freeReserveSlots j s)

/-- What a call of `dispatchAJob` leaves, with all offers in order. -/
structure Outcome where
  ret : DispRet
  last : Dispatching
  log : List Offer

def turns (S : Setting) (j : JobRef) : Nat → Nat → Dispatching → Option Outcome
  | 0, _, _ => none
  | n + 1, k, d =>
    let t := turn S k j d
    match t.ret with
    | some ret => some ⟨ret, t.next, t.offer.toList⟩
    | none => (turns S j n (k + 1) t.next).map fun o => { o with log := t.offer.toList ++ o.log }

/-- With a bound for the turns of the loop. -/
def dispatchAJob (S : Setting) (j : JobRef) (n : Nat) (d : Dispatching) : Option Outcome :=
  if S.schedDelay then some ⟨.DISP_NO_JOB, d, []⟩
  else turns S j n 0 { d with jp := getNumSlots d.jp }

def JobCands.hosts (jp : JobCands) : List HRef := jp.candPtr.map (·.hData)

section

variable {jp : JobCands} {d : Dispatching}

theorem removeCandHost_hosts (jp : JobCands) : jp.removeCandHost.hosts = jp.hosts.tail := by
  simp [JobCands.removeCandHost, JobCands.hosts]

theorem JobCands.Sound.removeCandHost (h : jp.Sound) : jp.removeCandHost.Sound :=
  ⟨fun c hc => h.cand c (mem_of_mem_tail hc), fun c hc => h.lent c (mem_of_mem_tail hc), h.avail, h.procs⟩

theorem hPtr_mem (h : jp.Sound) (s : Mbd) (hx : x ∈ (getNumProcs s jp).hPtr) : x ∈ jp.hosts := by
  obtain ⟨cand, hc, hx⟩ := mem_flatMap.mp hx
  obtain ⟨e, he, hc⟩ := mem_filterMap.mp hc
  obtain ⟨y, hy, rfl⟩ := Option.map_eq_some_iff.mp hc
  have hf := getNumProcs_fits h s e he
  rw [eq_of_mem_replicate hx]
  rcases hf.host with hhost | hn
  · rw [hy, Option.some.injEq] at hhost
    rw [hhost]
    exact mem_map_of_mem (cand_mem hf.lt)
  · rw [hy] at hn
    cases hn.1

/-- A turn ends the loop, with or without an offer, or is refused and removes the first candidate. -/
inductive TurnKind (d : Dispatching) (g : Granted) (t : Turn) : Prop where
  | silent (hjp : t.next.jp = d.jp) (hoffer : t.offer = none) (hret : t.ret ≠ none)
  | ends (o : Offer) (hjp : t.next.jp = d.jp) (hoffer : t.offer = some o) (hret : t.ret ≠ none)
      (hhost : g.hPtr.head? = some o.host) (hnum : o.numHostPtr = g.hPtr.length) (hremoved : o.removed = none)
  | refused (o : Offer) (hjp : t.next.jp = d.jp.removeCandHost) (hoffer : t.offer = some o) (hfailed : o.newReason.isSome)
      (hhost : g.hPtr.head? = some o.host) (hnum : o.numHostPtr = g.hPtr.length)
      (hremoved : o.removed = d.jp.hosts.head?) (hmore : t.ret = none → t.next.jp.candPtr ≠ [])

theorem dispatchToCandHost_kind (g : Granted) (s : Mbd) : TurnKind d g (dispatchToCandHost S k j d.jp g s) := by
  unfold dispatchToCandHost
  split
  · exact .silent rfl rfl (by simp)
  · dsimp only
    split
    · exact .silent rfl rfl (by simp)
    case h_2 host hPtr hg =>
      split
      · exact .silent rfl rfl (by simp)
      · split
        · exact .ends _ rfl rfl (by simp) (by rw [hg]; rfl) (by rw [hg]) rfl
        · split
          · refine .refused _ rfl rfl rfl (by rw [hg]; rfl) (by rw [hg]) ?_ ?_
            · simp [JobCands.hosts]
            · intro hr hn
              split at hr <;> cases hr
          · exact .ends _ rfl rfl (by simp) (by rw [hg]; rfl) (by rw [hg]) rfl

theorem turn_kind (d : Dispatching) : TurnKind d (getNumProcs d.mbd d.jp) (turn S k j d) ∧
    ((turn S k j d).offer.isSome → d.jp.numProcessors ≤ (getNumProcs d.mbd d.jp).numAvailEligProc) := by
  unfold turn
  dsimp only
  split
  · split
    · exact ⟨.silent rfl rfl (by simp), by simp⟩
    · split
      · exact ⟨.silent rfl rfl (by simp), by simp⟩
      · exact ⟨.silent rfl rfl (by simp), by simp⟩
  case isFalse he =>
    exact ⟨dispatchToCandHost_kind _ _, fun _ => (le_max_left _ _).trans (not_lt.mp he)⟩

/-- Each turn but the last takes a candidate away, so the loop ends. -/
theorem turns_isSome (n k : Nat) (d : Dispatching) (hn : d.jp.candPtr.length < n) : (turns S j n k d).isSome := by
  induction n generalizing k d with
  | zero => omega
  | succ n ih =>
    simp only [turns]
    split
    · rfl
    case h_2 hr =>
      rw [Option.isSome_map]
      refine ih _ _ ?_
      rcases (turn_kind (S := S) (j := j) (k := k) d).1 with ⟨-, -, hs⟩ | ⟨o, -, -, hs⟩ | ⟨o, hjp, -, -, -, -, -, hmore⟩
      · exact absurd hr hs
      · exact absurd hr hs
      · have hne := hmore hr
        rw [hjp] at hne ⊢
        have hpos := length_pos_of_ne_nil hne
        simp only [JobCands.removeCandHost, length_tail] at hpos ⊢
        omega

end

def NotAgain (log : List Offer) : Prop := log.Pairwise fun o o' => o.newReason.isSome → o'.host ≠ o.host

def GoneRefused (before after : List HRef) (log : List Offer) : Prop :=
  ∀ h ∈ before, h ∉ after → ∃ o ∈ log, o.newReason.isSome ∧ o.host = h

def FrontRefused (log : List Offer) : Prop := ∀ o ∈ log, o.removed = none ∨ o.removed = some o.host
  deriving Decidable

instance (log : List Offer) : Decidable (NotAgain log) := inferInstanceAs (Decidable (log.Pairwise _))
instance (before after : List HRef) (log : List Offer) : Decidable (GoneRefused before after log) :=
  inferInstanceAs (Decidable (∀ h ∈ before, _))
theorem frontRefused_cons_iff {before after : List HRef} (hl : ∀ o' ∈ log, o'.host ∈ before)
    (haft : ∀ h ∈ after, h ∈ before) (hn : h₀ ∉ before) (hfai : o.newReason.isSome)
    (hremoved : o.removed = some h₀) (ih : NotAgain log ∧ GoneRefused before after log ↔ FrontRefused log) :
    NotAgain (o :: log) ∧ GoneRefused (h₀ :: before) after (o :: log) ↔ FrontRefused (o :: log) := by
  constructor
  · rintro ⟨ha, hg⟩
    rw [NotAgain, pairwise_cons] at ha
    -- the removed candidate has refused, and it cannot have done so later
    have hhost : o.host = h₀ := by
      obtain ⟨o', ho', -, hhost⟩ := hg h₀ mem_cons_self fun hmem => hn (haft h₀ hmem)
      rcases mem_cons.mp ho' with rfl | ho'
      · exact hhost
      · exact absurd (hhost ▸ hl o' ho') hn
    have hg' : GoneRefused before after log := by
      intro h hh hh'
      obtain ⟨o', ho', hr, rfl⟩ := hg h (mem_cons_of_mem _ hh) hh'
      rcases mem_cons.mp ho' with rfl | ho'
      · exact absurd (hhost ▸ hh) hn
      · exact ⟨o', ho', hr, rfl⟩
    exact forall_mem_cons.mpr ⟨.inr (by rw [hremoved, hhost]), ih.mp ⟨ha.2, hg'⟩⟩
  · intro hf
    rw [FrontRefused, forall_mem_cons] at hf
    have hhost : o.host = h₀ := by simpa [hremoved, eq_comm] using hf.1
    obtain ⟨ha, hg⟩ := ih.mpr hf.2
    refine ⟨pairwise_cons.mpr ⟨fun o' ho' _ he => hn ?_, ha⟩, fun h hh hh' => ?_⟩
    · rw [← hhost, ← he]
      exact hl o' ho'
    · rcases mem_cons.mp hh with rfl | hh
      · exact ⟨o, mem_cons_self, hfai, hhost⟩
      · obtain ⟨o', ho', hr⟩ := hg h hh hh'
        exact ⟨o', mem_cons_of_mem _ ho', hr⟩

section

variable {out : Outcome}

theorem turn_offer (ho : (turn S k j d).offer = some o) :
    d.jp.numProcessors ≤ (getNumProcs d.mbd d.jp).numAvailEligProc ∧ (getNumProcs d.mbd d.jp).hPtr.head? = some o.host ∧
    o.numHostPtr = (getNumProcs d.mbd d.jp).hPtr.length ∧ (o.removed = none ∨ o.removed = d.jp.hosts.head?) := by
  obtain ⟨hkind, he⟩ := turn_kind (S := S) (j := j) (k := k) d
  refine ⟨he (by rw [ho]; rfl), ?_⟩
  rcases hkind with ⟨-, hn, -⟩ | ⟨o', -, ho', -, hhost, hnum, hremoved⟩ | ⟨o', -, ho', -, hhost, hnum, hremoved, -⟩
  · rw [hn] at ho
    cases ho
  · rw [ho', Option.some.injEq] at ho
    subst ho
    exact ⟨hhost, hnum, .inl hremoved⟩
  · rw [ho', Option.some.injEq] at ho
    subst ho
    exact ⟨hhost, hnum, .inr hremoved⟩

theorem turns_offers {P : JobCands → Prop} {Q : Offer → Prop} (hrem : ∀ jp, P jp → P jp.removeCandHost)
    (hoff : ∀ k d o, P d.jp → (turn S k j d).offer = some o → Q o) (n k : Nat) (d : Dispatching) (h : P d.jp)
    (hr : turns S j n k d = some out) : ∀ o ∈ out.log, Q o := by
  induction n generalizing k d out with
  | zero => cases hr
  | succ n ih =>
    simp only [turns] at hr
    have ht : ∀ o ∈ (turn S k j d).offer.toList, Q o := fun o ho => hoff k d o h (Option.mem_toList.mp ho)
    cases hret : (turn S k j d).ret with
    | some ret =>
      simp only [hret, Option.some.injEq] at hr
      subst hr
      exact ht
    | none =>
      simp only [hret] at hr
      obtain ⟨out', hout', rfl⟩ := Option.map_eq_some_iff.mp hr
      have hn : (turn S k j d).next.jp = d.jp.removeCandHost := by
        rcases (turn_kind (S := S) (j := j) (k := k) d).1 with ⟨-, -, hs⟩ | ⟨o', -, -, hs, -⟩ | ⟨o', hjp, -⟩
        · exact absurd hret hs
        · exact absurd hret hs
        · exact hjp
      have hr := ih (k + 1) _ (hn ▸ hrem _ h) hout'
      exact fun o ho => (mem_append.mp ho).elim (ht o) (hr o)

/-- What holds of a loop that is left after some turns. -/
structure Ended (before : List HRef) (out : Outcome) : Prop where
  log : ∀ o ∈ out.log, o.host ∈ before
  last : ∀ h ∈ out.last.jp.hosts, h ∈ before
  fair : NotAgain out.log ∧ GoneRefused before out.last.jp.hosts out.log ↔ FrontRefused out.log

theorem turns_ended (n k : Nat) (d : Dispatching) (h : d.jp.Sound) (hn : d.jp.hosts.Nodup)
    (hr : turns S j n k d = some out) : Ended d.jp.hosts out := by
  induction n generalizing k d out with
  | zero => cases hr
  | succ n ih =>
    simp only [turns] at hr
    have hf : ∀ {x : HRef}, (getNumProcs d.mbd d.jp).hPtr.head? = some x → x ∈ d.jp.hosts := fun hx =>
      hPtr_mem h d.mbd (mem_of_mem_head? hx)
    rcases (turn_kind (S := S) (j := j) (k := k) d).1 with ⟨hjp, hoff, hret⟩ | ⟨o, hjp, hoff, hret, hhost, -, hremoved⟩ |
      ⟨o, hjp, hoff, hfai, hhost, -, hremoved, -⟩
    · obtain ⟨ret, hret⟩ := Option.ne_none_iff_exists'.mp hret
      simp only [hret, hoff, Option.toList_none, Option.some.injEq] at hr
      subst hr
      exact ⟨by simp, fun x hx => by rwa [← hjp], by simp [NotAgain, GoneRefused, FrontRefused, hjp]⟩
    · obtain ⟨ret, hret⟩ := Option.ne_none_iff_exists'.mp hret
      simp only [hret, hoff, Option.toList_some, Option.some.injEq] at hr
      subst hr
      refine ⟨by simpa using hf hhost, fun x hx => by rwa [← hjp], iff_of_true ⟨?_, ?_⟩ ?_⟩
      · exact pairwise_singleton _ _
      · rw [hjp]
        exact fun x hx hx' => absurd hx hx'
      · simp [FrontRefused, hremoved]
    · -- the candidate at the front is removed
      have hmem := hf hhost
      obtain ⟨h0, rest, hh⟩ := exists_cons_of_ne_nil (ne_nil_of_mem hmem)
      rw [hh, nodup_cons] at hn
      rw [hh] at hremoved
      have hnext : (turn S k j d).next.jp.hosts = rest := by rw [hjp, removeCandHost_hosts, hh, tail_cons]
      have hc : ∀ (log : List Offer) (after : List HRef), (∀ o ∈ log, o.host ∈ rest) → (∀ h ∈ after, h ∈ rest) →
          (NotAgain log ∧ GoneRefused rest after log ↔ FrontRefused log) →
          (∀ o' ∈ o :: log, o'.host ∈ d.jp.hosts) ∧ (∀ h ∈ after, h ∈ d.jp.hosts) ∧
            (NotAgain (o :: log) ∧ GoneRefused d.jp.hosts after (o :: log) ↔ FrontRefused (o :: log)) := by
        intro log after hl ha hf
        rw [hh] at hmem ⊢
        exact ⟨forall_mem_cons.mpr ⟨hmem, fun o' ho' => mem_cons_of_mem _ (hl o' ho')⟩,
          fun x hx => mem_cons_of_mem _ (ha x hx),
          frontRefused_cons_iff hl ha hn.1 hfai hremoved hf⟩
      cases hret : (turn S k j d).ret with
      | some ret =>
        simp only [hret, hoff, Option.toList_some, Option.some.injEq] at hr
        subst hr
        obtain ⟨hl, hlast, hf⟩ := hc [] rest (by simp) (fun _ hx => hx)
          (iff_of_true ⟨.nil, fun x hx hx' => absurd hx hx'⟩ (by simp [FrontRefused]))
        exact ⟨hl, by rwa [hnext], by rwa [hnext]⟩
      | none =>
        simp only [hret, hoff, Option.toList_some] at hr
        obtain ⟨out', ho', rfl⟩ := Option.map_eq_some_iff.mp hr
        obtain ⟨hl, hlast, hf⟩ := ih (k + 1) _ (hjp ▸ h.removeCandHost) (by rw [hnext]; exact hn.2) ho'
        rw [hnext] at hl hlast hf
        obtain ⟨hl, hlast, hf⟩ := hc _ _ hl hlast hf
        exact ⟨hl, hlast, hf⟩

end

section

variable {jp : JobCands}

theorem slots_sum (hes : ∀ e ∈ es, AtOnce jp e) (n a : Int) :
    (((Granted.mk es n a).hPtr.length : Nat) : Int) = slotSum es := by
  induction es with
  | nil => rfl
  | cons e es ih =>
    rw [forall_mem_cons] at hes
    have hpos : (e.numSlots.toNat : Int) = e.numSlots := Int.toNat_of_nonneg (hes.1.eq ▸ hes.1.nonneg)
    have hr := ih hes.2
    simp only [Granted.hPtr, Granted.slots, filterMap_cons, hes.1.host, Option.map_some, flatMap_cons,
      length_append, length_replicate, slotSum, map_cons, sum_cons] at hr ⊢
    push_cast
    rw [hpos, hr]

theorem getNumProcs_slots (h : jp.Sound) (he : jp.numProcessors ≤ (getNumProcs s jp).numAvailEligProc) :
    ((getNumProcs s jp).hPtr.length : Int) = (getNumProcs s jp).numAvailEligProc ∧
      (getNumProcs s jp).numEligProc = (getNumProcs s jp).numAvailEligProc ∧
      (getNumProcs s jp).numEligProc ≤ jp.maxNumProcessors := by
  obtain ⟨g, hd, -, -, -, -, hs, -⟩ := getNumProcs_dealt h s
  have hg := hs he
  rw [hg] at he ⊢
  obtain ⟨heq, hes⟩ := hd.enough he
  exact ⟨(slots_sum hes _ _).trans (hd.sum.trans heq), heq, hd.max⟩

/-- The hosts of a job that has its slots at once. -/
theorem getNumProcs_hosts (h : jp.Sound) (he : max jp.numProcessors 1 ≤ (getNumProcs s jp).numAvailEligProc) :
    ∃ host hPtr, (getNumProcs s jp).hPtr = host :: hPtr ∧
      ((host :: hPtr).length : Int) = (getNumProcs s jp).numAvailEligProc ∧
      ¬ (getNumProcs s jp).numAvailEligProc < max jp.numProcessors 0 ∧ ¬ (getNumProcs s jp).numEligProc ≤ 0 ∧
      ¬ ((host :: hPtr).length : Int) < jp.numProcessors := by
  obtain ⟨hl, heq, -⟩ := getNumProcs_slots h ((le_max_left _ _).trans he)
  cases hhost : (getNumProcs s jp).hPtr with
  | nil =>
    rw [hhost, length_nil, Nat.cast_zero] at hl
    omega
  | cons host hPtr =>
    rw [hhost] at hl
    exact ⟨host, hPtr, rfl, hl, by omega, by omega, by omega⟩

theorem JobCands.backfills_removeCandHost (h : jp.backfills = false) : jp.removeCandHost.backfills = false := by
  by_contra hb
  rw [Bool.not_eq_false] at hb
  simp only [JobCands.backfills, JobCands.removeCandHost, jobHasBackfillee, Bool.and_eq_true, any_eq_true] at h hb
  obtain ⟨⟨⟨hcan, hpref⟩, c, hc, hlist⟩, ho⟩ := hb
  have ha : jp.candPtr.any (·.backfilleeList.isSome) = true :=
    any_eq_true.mpr ⟨c, mem_of_mem_tail hc, hlist⟩
  simp [hcan, hpref, ha, ho] at h

/-- The same request, with limits and candidates that offer no more. -/
structure Narrowed (jp jp' : JobCands) : Prop where
  sound : jp'.Sound
  procs : jp'.numProcessors = jp.numProcessors ∧ jp'.maxNumProcessors = jp.maxNumProcessors
  borrow : jp'.mayBorrow = jp.mayBorrow
  avail : jp'.numAvailSlots ≤ jp.numAvailSlots
  cand : ∀ c ∈ jp'.candPtr, c.numAvailSlots ≤ jp.numAvailSlots

theorem Narrowed.removeCandHost (h : Narrowed jp jp') : Narrowed jp jp'.removeCandHost :=
  ⟨h.sound.removeCandHost, h.procs, h.borrow, h.avail, fun c hc => h.cand c (mem_of_mem_tail hc)⟩

theorem Narrowed.getNumSlots (h : jp.Offers) : Narrowed jp (getNumSlots jp) := by
  refine ⟨getNumSlots_sound h, ⟨rfl, rfl⟩, rfl, min_le_left _ _, fun c hc => ?_⟩
  obtain ⟨c', -, rfl⟩ := mem_map.mp ((getNumSlots_perm jp).mem_iff.mp hc)
  exact min_le_right _ _

/-- Limits of a job that gets no more slots than `numSlots` whatever the candidates are: if it borrows, before the last
host it has less than `numAvailSlots`, and it gets at most so many there. -/
def JobCands.SlotsFit (jp : JobCands) : Prop :=
  jp.mayBorrow → jp.maxNumProcessors ≤ jp.numSlots ∨ 2 * jp.numAvailSlots - 1 ≤ jp.numSlots ∨
    2 * jp.numAvailSlots - 1 < jp.numProcessors

instance (jp : JobCands) : Decidable jp.SlotsFit := inferInstanceAs (Decidable (_ → _))

def WithinRequest (jp : JobCands) (n : Int) : Prop :=
  jp.numProcessors ≤ n ∧ n ≤ jp.maxNumProcessors ∧ n ≤ jp.numSlots

theorem Narrowed.withinRequest (h : Narrowed jp jp') (havail : jp.numAvailSlots ≤ jp.numSlots) (hfit : jp.SlotsFit)
    (he : jp'.numProcessors ≤ (getNumProcs s jp').numAvailEligProc) (hpos : 0 < (getNumProcs s jp').hPtr.length) :
    WithinRequest jp (getNumProcs s jp').hPtr.length := by
  obtain ⟨hl, heq, hmax⟩ := getNumProcs_slots h.sound he
  obtain ⟨hp, hm⟩ := h.procs
  have hle := getNumProcs_avail_le h.sound h.avail h.cand s
  refine ⟨by omega, by omega, ?_⟩
  split at hle
  case isTrue hb =>
    rw [JobCands.backfills_eq, Bool.and_eq_true, h.borrow] at hb
    have := hfit hb.1
    omega
  case isFalse => omega

theorem turns_slots (n k : Nat) (h : Narrowed jp d.jp) (havail : jp.numAvailSlots ≤ jp.numSlots) (hfit : jp.SlotsFit)
    (hr : turns S j n k d = some out) : ∀ o ∈ out.log, WithinRequest jp o.numHostPtr := by
  refine turns_offers (P := Narrowed jp) (fun jp' => Narrowed.removeCandHost) (fun k d' o hd' ho => ?_) n k d h hr
  obtain ⟨he, hhost, hn, -⟩ := turn_offer ho
  rw [hn]
  refine hd'.withinRequest havail hfit he (length_pos_iff.mpr fun hnil => ?_)
  rw [hnil] at hhost
  cases hhost

end

section

theorem getBackfillSlotsOnExecCandHost_slots (g : Granted) : (getBackfillSlotsOnExecCandHost jp g).slots = g.slots := by
  unfold Granted.slots getBackfillSlotsOnExecCandHost
  rw [filterMap_map]
  refine filterMap_congr fun e _ => ?_
  dsimp only [Function.comp_apply]
  split <;> rfl

theorem getNumProcs_plain (h : jp.Sound) (hpla : jp.backfills = false)
    (he : jp.numProcessors ≤ (getNumProcs s jp).numAvailEligProc) :
    (getNumProcs s jp).hPtr = (Granted.mk (takeAvail jp jp.candPtr.zipIdx 0).1 0 0).hPtr := by
  have hs : (getNumProcs s jp).slots = (plainCands s jp).slots ∧ jp.numProcessors ≤ (plainCands s jp).numAvailEligProc := by
    unfold getNumProcs at he ⊢
    simp only [hpla, Bool.false_eq_true, if_false] at he ⊢
    split
    case isTrue hb =>
      rw [if_pos hb] at he
      have hd := (plainCands_dealt (s := s) h).1.getBackfillSlotsOnExecCandHost
      have hsame := (doBackfill_spec hd).2.2.2.2 he
      rw [hsame] at he ⊢
      exact ⟨getBackfillSlotsOnExecCandHost_slots _, he⟩
    case isFalse hb =>
      rw [if_neg hb] at he
      exact ⟨rfl, he⟩
  have hpick : (plainCands s jp).execCandPtr = (takeAvail jp jp.candPtr.zipIdx 0).1 := by
    have hge := hs.2
    unfold plainCands at hge ⊢
    dsimp only at hge ⊢
    split
    case isTrue hf =>
      rw [if_pos hf] at hge
      exact absurd hf (not_lt.mpr hge)
    case isFalse => rfl
  unfold Granted.hPtr
  rw [hs.1, Granted.slots, Granted.slots, hpick]

/-- The slots that candidates have for the job at once, if it does not borrow. -/
def JobCands.atOnce (jp : JobCands) (cs : List CandHost) : Int :=
  min (min jp.maxNumProcessors jp.numAvailSlots) (cs.map (·.numAvailSlots)).sum

theorem takeAvail_total (jp : JobCands) (cs : List CandHost) (hcs : ∀ c ∈ cs, 0 ≤ c.numAvailSlots) (i : Nat) (n : Int)
    (hn : n ≤ min jp.maxNumProcessors jp.numAvailSlots) : (takeAvail jp (cs.zipIdx i) n).2 =
      min (min jp.maxNumProcessors jp.numAvailSlots) (n + (cs.map (·.numAvailSlots)).sum) := by
  induction cs generalizing i n with
  | nil =>
    simp only [zipIdx_nil, takeAvail, Deal.make, map_nil, sum_nil, add_zero]
    omega
  | cons c cs ih =>
    rw [forall_mem_cons] at hcs
    have hsum : 0 ≤ (cs.map (·.numAvailSlots)).sum := sum_nonneg (by simpa using hcs.2)
    simp only [zipIdx_cons, takeAvail, Deal.make, map_cons, sum_cons]
    split
    case isTrue hgo =>
      have hrest := ih hcs.2 (i + 1) (n + min (min c.numAvailSlots (jp.maxNumProcessors - n)) (jp.numAvailSlots - n))
        (by omega)
      rw [takeAvail] at hrest
      rw [hrest]
      omega
    case isFalse hgo =>
      rw [JobCands.wantsAvail] at hgo
      have := hcs.1
      omega

theorem getNumProcs_atOnce (h : jp.Sound) (hpla : jp.backfills = false) :
    (getNumProcs s jp).numAvailEligProc ≤ jp.atOnce jp.candPtr ∧
      (jp.numProcessors ≤ jp.atOnce jp.candPtr → (getNumProcs s jp).numAvailEligProc = jp.atOnce jp.candPtr) := by
  have ht : (takeAvail jp jp.candPtr.zipIdx 0).2 = jp.atOnce jp.candPtr := by
    have := takeAvail_total jp jp.candPtr (fun c hc => (h.cand c hc).1) 0 0
      (le_min (h.procs.1.trans h.procs.2) h.avail.1)
    rwa [zero_add] at this
  have ha : (plainCands s jp).numAvailEligProc = jp.atOnce jp.candPtr := by
    rw [← ht]
    unfold plainCands
    dsimp only
    split <;> rfl
  have he : jp.numProcessors ≤ jp.atOnce jp.candPtr → jp.numProcessors ≤ (plainCands s jp).numEligProc := fun hle =>
    hle.trans (ha ▸ (plainCands_dealt h).1.order)
  unfold getNumProcs
  simp only [hpla, Bool.false_eq_true, if_false]
  split
  · have hd := (plainCands_dealt (s := s) h).1.getBackfillSlotsOnExecCandHost
    refine ⟨(doBackfill_spec hd).2.2.2.1.trans ha.le, fun hle => ?_⟩
    have hkeep : doBackfill jp (getBackfillSlotsOnExecCandHost jp (plainCands s jp)) =
        getBackfillSlotsOnExecCandHost jp (plainCands s jp) := if_pos (he hle)
    rw [hkeep]
    exact ha
  · exact ⟨ha.le, fun _ => ha⟩

/-- The hosts of a job that has its slots at once have slots for it. -/
theorem hPtr_avail (h : jp.Sound) (he : jp.numProcessors ≤ (getNumProcs s jp).numAvailEligProc)
    (hx : x ∈ (getNumProcs s jp).hPtr) : ∃ c ∈ jp.candPtr, c.hData = x ∧ 0 < c.numAvailSlots := by
  obtain ⟨g, hd, -, -, -, -, hs, -⟩ := getNumProcs_dealt h s
  have hg := hs he
  rw [hg] at he hx
  obtain ⟨cand, hcand, hx⟩ := mem_flatMap.mp hx
  obtain ⟨e, hmem, hc⟩ := mem_filterMap.mp hcand
  obtain ⟨y, hy, rfl⟩ := Option.map_eq_some_iff.mp hc
  obtain ⟨hpos, rfl⟩ := mem_replicate.mp hx
  obtain ⟨hlt, hhost, heq, ha, -⟩ := (hd.enough he).2 e hmem
  rw [hhost, Option.some.injEq] at hy
  exact ⟨_, cand_mem hlt, hy, by dsimp only at hpos; omega⟩

/-- The first candidate gets the job exactly if it has a slot. -/
theorem getNumProcs_front_iff (h : jp.Sound) (hpla : jp.backfills = false) (hn : jp.hosts.Nodup)
    (he : jp.numProcessors ≤ (getNumProcs s jp).numAvailEligProc) (hx : (getNumProcs s jp).hPtr.head? = some x)
    (hcan : jp.candPtr = c :: cs) : jp.hosts.head? = some x ↔ 0 < c.numAvailSlots := by
  have hhosts : jp.hosts = c.hData :: cs.map (·.hData) := by rw [JobCands.hosts, hcan, map_cons]
  constructor
  · intro hfront
    obtain ⟨c', hc', hhost, hpos⟩ := hPtr_avail h he (mem_of_mem_head? hx)
    rw [hhosts, List.head?_cons, Option.some.injEq] at hfront
    rw [hcan] at hc'
    rcases mem_cons.mp hc' with rfl | hc'
    · exact hpos
    · rw [hhosts, nodup_cons] at hn
      exact absurd (mem_map.mpr ⟨c', hc', hhost.trans hfront.symm⟩) hn.1
  · intro hpos
    rw [getNumProcs_plain h hpla he, hcan, zipIdx_cons, takeAvail] at hx
    simp only [Deal.make] at hx
    split at hx
    case isFalse => cases hx
    case isTrue hgo =>
      have hpos : 0 < (min (min c.numAvailSlots (jp.maxNumProcessors - 0)) (jp.numAvailSlots - 0)).toNat := by
        obtain ⟨hgo1, hgo2⟩ := hgo
        omega
      simp only [Granted.hPtr, Granted.slots, filterMap_cons, Option.map_some, flatMap_cons] at hx
      obtain ⟨m, hm⟩ := Nat.exists_eq_succ_of_ne_zero hpos.ne'
      rw [hm, replicate_succ, cons_append, List.head?_cons] at hx
      rw [hhosts, List.head?_cons]
      simpa using hx

/-- Each candidate has a slot, as long as it and those behind it have enough for the job. -/
def Served (jp : JobCands) : List CandHost → Prop
  | [] => True
  | c :: cs => (max jp.numProcessors 1 ≤ jp.atOnce (c :: cs) → 0 < c.numAvailSlots) ∧ Served jp cs

instance instDecidableServed (jp : JobCands) : (cs : List CandHost) → Decidable (Served jp cs)
  | [] => .isTrue trivial
  | _ :: cs => have := instDecidableServed jp cs; inferInstanceAs (Decidable (_ ∧ _))

theorem served_limits (cs : List CandHost) : Served jp cs ↔ Served jp.removeCandHost cs := by
  induction cs with
  | nil => exact Iff.rfl
  | cons c cs ih => exact and_congr Iff.rfl ih

theorem served_removeCandHost (h : Served jp jp.candPtr) : Served jp.removeCandHost jp.removeCandHost.candPtr := by
  rw [← served_limits]
  unfold JobCands.removeCandHost
  cases hcan : jp.candPtr with
  | nil => trivial
  | cons c cs =>
    rw [hcan] at h
    exact h.2

theorem turns_front (n k : Nat) (d : Dispatching) (h : d.jp.Sound) (hpla : d.jp.backfills = false)
    (hn : d.jp.hosts.Nodup) (hserved : Served d.jp d.jp.candPtr) (hr : turns S j n k d = some out) :
    FrontRefused out.log := by
  refine turns_offers
    (P := fun jp => jp.Sound ∧ jp.backfills = false ∧ jp.hosts.Nodup ∧ Served jp jp.candPtr)
    (fun jp ⟨hs, hp, hn, hf⟩ => ⟨hs.removeCandHost, JobCands.backfills_removeCandHost hp, ?_, served_removeCandHost hf⟩)
    (fun k d o ⟨hs, hp, hn, hf⟩ ho => ?_) n k d ⟨h, hpla, hn, hserved⟩ hr
  · rw [removeCandHost_hosts]
    exact hn.sublist (tail_sublist _)
  · obtain ⟨he, hhost, -, hremoved⟩ := turn_offer ho
    refine hremoved.imp_right fun hremoved => hremoved.trans ?_
    have hmem := hPtr_mem hs d.mbd (mem_of_mem_head? hhost)
    cases hcan : d.jp.candPtr with
    | nil => simp [JobCands.hosts, hcan] at hmem
    | cons c cs =>
      refine (getNumProcs_front_iff hs hp hn he hhost hcan).mpr ?_
      rw [hcan] at hf
      obtain ⟨hl, -⟩ := getNumProcs_slots hs he
      have hpos : 0 < (getNumProcs d.mbd d.jp).hPtr.length := length_pos_of_mem (mem_of_mem_head? hhost)
      have hle := hcan ▸ (getNumProcs_atOnce (s := d.mbd) hs hp).1
      exact hf.1 (by omega)

theorem getNumSlots_hosts (jp : JobCands) : (getNumSlots jp).hosts.Perm jp.hosts := by
  have hperm := (getNumSlots_perm jp).map CandHost.hData
  rw [map_map] at hperm
  exact hperm

/-- A job that borrows, with slots on the first candidate only. -/
theorem turns_front_alone (n k : Nat) (d : Dispatching) (h : d.jp.Sound)
    (halone : ∀ c ∈ d.jp.candPtr.tail, c.numAvailSlots = 0) (hr : turns S j n k d = some out) :
    FrontRefused out.log := by
  refine turns_offers (P := fun jp => jp.Sound ∧ ∀ c ∈ jp.candPtr.tail, c.numAvailSlots = 0)
    (fun jp ⟨hs, hf⟩ => ⟨hs.removeCandHost, fun c hc => hf c (mem_of_mem_tail hc)⟩)
    (fun k d o ⟨hs, hf⟩ ho => ?_) n k d ⟨h, halone⟩ hr
  obtain ⟨he, hhost, -, hremoved⟩ := turn_offer ho
  refine hremoved.imp_right fun hremoved => hremoved.trans ?_
  obtain ⟨c, hc, hx, hpos⟩ := hPtr_avail hs he (mem_of_mem_head? hhost)
  unfold JobCands.hosts
  cases hcan : d.jp.candPtr with
  | nil => simp [hcan] at hc
  | cons c' cs =>
    rw [hcan] at hc hf
    rcases mem_cons.mp hc with rfl | hc
    · rw [map_cons, List.head?_cons, hx]
    · exact absurd (hf c hc) hpos.ne'

/-- Every host refuses the job. -/
def allRefuse : Setting := { dispatch_it := fun _ => some 0 }

theorem turn_allRefuse (h : d.jp.Sound) (he : max d.jp.numProcessors 1 ≤ (getNumProcs d.mbd d.jp).numAvailEligProc) :
    ∃ o, (turn allRefuse k j d).offer = some o ∧ (getNumProcs d.mbd d.jp).hPtr.head? = some o.host ∧
      o.removed = d.jp.hosts.head? ∧ (turn allRefuse k j d).next.jp = d.jp.removeCandHost ∧
      ((turn allRefuse k j d).ret = none ↔ d.jp.removeCandHost.candPtr ≠ []) := by
  obtain ⟨host, hPtr, hhost, -, hno, helig, hlen⟩ := getNumProcs_hosts h he
  simp only [turn, allRefuse, dispatchToCandHost, hno, helig, hhost, hlen, if_false, Nat.zero_and, if_true,
    Bool.false_eq_true]
  refine ⟨_, rfl, rfl, by simp [JobCands.hosts], trivial, ?_⟩
  split <;> simp_all

theorem served_of_short (cs : List CandHost) (hcs : ∀ c ∈ cs, 0 ≤ c.numAvailSlots)
    (h : jp.atOnce cs < max jp.numProcessors 1) : Served jp cs := by
  induction cs with
  | nil => trivial
  | cons c cs ih =>
    rw [forall_mem_cons] at hcs
    refine ⟨fun hle => absurd h (not_lt.mpr hle), ih hcs.2 (lt_of_le_of_lt ?_ h)⟩
    simp only [JobCands.atOnce, map_cons, sum_cons]
    have := hcs.1
    omega

/-- The loop ends, no host that refused gets the job again, and the hosts that are gone have refused it. -/
def Fair (S : Setting) (j : JobRef) (n : Nat) (d : Dispatching) : Prop :=
  ∃ out, dispatchAJob S j n d = some out ∧ NotAgain out.log ∧ GoneRefused d.jp.hosts out.last.jp.hosts out.log

theorem fair_iff_front {d : Dispatching} (h : d.jp.Offers) (hnodup : d.jp.hosts.Nodup)
    (hr : turns S j n 0 { d with jp := getNumSlots d.jp } = some out) :
    NotAgain out.log ∧ GoneRefused d.jp.hosts out.last.jp.hosts out.log ↔ FrontRefused out.log := by
  have hh := getNumSlots_hosts d.jp
  have hg : GoneRefused d.jp.hosts out.last.jp.hosts out.log ↔
      GoneRefused (getNumSlots d.jp).hosts out.last.jp.hosts out.log :=
    forall_congr' fun x => imp_congr_left hh.mem_iff.symm
  rw [hg]
  exact (turns_ended n 0 _ (getNumSlots_sound h) (hh.nodup_iff.mpr hnodup) hr).fair

theorem fair_of_front {d : Dispatching} (h : d.jp.Offers) (hnodup : d.jp.hosts.Nodup) (hn : d.jp.candPtr.length < n)
    (hf : ∀ out, turns S j n 0 { d with jp := getNumSlots d.jp } = some out → FrontRefused out.log) : Fair S j n d := by
  unfold Fair dispatchAJob
  split
  · exact ⟨_, rfl, .nil, fun x hx hx' => absurd hx hx'⟩
  · have hl : (getNumSlots d.jp).candPtr.length = d.jp.candPtr.length := by
      rw [(getNumSlots_perm d.jp).length_eq, length_map]
    obtain ⟨out, ho⟩ := Option.isSome_iff_exists.mp
      (turns_isSome (S := S) (j := j) n 0 { d with jp := getNumSlots d.jp } (by rw [hl]; exact hn))
    exact ⟨out, ho, (fair_iff_front h hnodup ho).mpr (hf out ho)⟩

/-- If all hosts refuse, every candidate gets its turn as long as there are slots enough. -/
theorem served_of_turns (n k : Nat) (d : Dispatching) (h : d.jp.Sound) (hpla : d.jp.backfills = false)
    (hn : d.jp.hosts.Nodup) (hr : turns allRefuse j n k d = some out) (hf : FrontRefused out.log) (cs : List CandHost)
    (hcs : d.jp.candPtr = cs) : Served d.jp cs := by
  induction cs generalizing n k d out with
  | nil => trivial
  | cons c cs ih =>
    by_cases hen : max d.jp.numProcessors 1 ≤ d.jp.atOnce (c :: cs)
    · have ha := (getNumProcs_atOnce (s := d.mbd) h hpla).2 (by rw [hcs]; omega)
      obtain ⟨o, ho, hhost, hrem, hjp, hret⟩ := turn_allRefuse (k := k) (j := j) h (by rw [ha, hcs]; exact hen)
      have hcs' : d.jp.removeCandHost.candPtr = cs := by rw [JobCands.removeCandHost, hcs, tail_cons]
      cases n with
      | zero => cases hr
      | succ n =>
        have hlog : o ∈ out.log ∧ (cs ≠ [] → ∃ out', turns allRefuse j n (k + 1) (turn allRefuse k j d).next = some out' ∧
            ∀ o' ∈ out'.log, o' ∈ out.log) := by
          simp only [turns] at hr
          cases hcase : (turn allRefuse k j d).ret with
          | some ret =>
            simp only [hcase, Option.some.injEq] at hr
            subst hr
            refine ⟨by simp [ho], fun hne => ?_⟩
            rw [hret.mpr (hcs' ▸ hne)] at hcase
            cases hcase
          | none =>
            simp only [hcase] at hr
            obtain ⟨out', hout', rfl⟩ := Option.map_eq_some_iff.mp hr
            exact ⟨by simp [ho], fun _ => ⟨out', hout', fun o' ho' => mem_append_right _ ho'⟩⟩
        have hfront : d.jp.hosts.head? = some o.host := by
          have := hf o hlog.1
          rw [hrem, JobCands.hosts, hcs] at this
          rw [JobCands.hosts, hcs]
          simpa using this
        have hpos := (getNumProcs_front_iff h hpla hn (by rw [ha, hcs]; omega) hhost hcs).mp hfront
        refine ⟨fun _ => hpos, ?_⟩
        cases hnil : cs with
        | nil => trivial
        | cons c' cs' =>
          rw [← hnil]
          obtain ⟨out', hout', hsub⟩ := hlog.2 (by simp [hnil])
          have hrest := ih n (k + 1) _ (hjp ▸ h.removeCandHost) (hjp ▸ JobCands.backfills_removeCandHost hpla)
            (by rw [hjp, removeCandHost_hosts]; exact hn.sublist (tail_sublist _)) hout'
            (fun o' ho' => hf o' (hsub o' ho')) (hjp ▸ hcs')
          rwa [hjp, ← served_limits] at hrest
    · refine served_of_short (c :: cs) (fun c' hc' => (h.cand c' ?_).1) (not_le.mp hen)
      rw [hcs]
      exact hc'

end

def refusedTwice : Setting := { dispatch_it := fun k => if k < 2 then some 0 else none }

def bothFree : Dispatching where
  jp :=
    { numProcessors := 1, maxNumProcessors := 1, numSlots := 1, numAvailSlots := 1
      candPtr := [{ hData := 1, numSlots := 1, numAvailSlots := 1 }, { hData := 2, numSlots := 1, numAvailSlots := 1 }] }
  mbd := .blank

def secondFree : Dispatching where
  jp :=
    { numProcessors := 1, maxNumProcessors := 1, numSlots := 1, numAvailSlots := 1
      candPtr := [{ hData := 1, numSlots := 1 }, { hData := 2, numSlots := 1, numAvailSlots := 1 }] }
  mbd := .blank

section

variable {jp : JobCands}

theorem dispatchAJob_withinRequest (h : jp.Offers) (hfit : jp.SlotsFit)
    (hrun : dispatchAJob S j n ⟨jp, s⟩ = some out) : ∀ o ∈ out.log, WithinRequest jp o.numHostPtr := by
  unfold dispatchAJob at hrun
  split at hrun
  · rw [Option.some.injEq] at hrun
    subst hrun
    simp
  · exact turns_slots n 0 (.getNumSlots h) h.avail.2 hfit hrun

/-- A job whose slots are there at once is sent to its hosts. -/
theorem dispatchAJob_sent (h : (getNumSlots jp).Sound)
    (he : max jp.numProcessors 1 ≤ (getNumProcs s (getNumSlots jp)).numAvailEligProc) :
    ∃ out, dispatchAJob {} 0 1 ⟨jp, s⟩ = some out ∧
      ∃ o ∈ out.log, (o.numHostPtr : Int) = (getNumProcs s (getNumSlots jp)).numAvailEligProc := by
  obtain ⟨host, hPtr, hhost, hl, hno, helig, hlen⟩ := getNumProcs_hosts h he
  simp only [dispatchAJob, turns, turn, dispatchToCandHost, hno, helig, hhost, hlen, if_false, Bool.false_eq_true]
  exact ⟨_, rfl, _, mem_singleton_self _, hl⟩

/-- Two candidates that lend all their slots, the first one slot less than the job may have at once. -/
def lentTwice (jp : JobCands) : JobCands :=
  { jp with
    candPtr := [allLent 0 (jp.numAvailSlots - 1), allLent 1 jp.numAvailSlots], spare := fun _ _ => 0 }

theorem getNumSlots_lentTwice (h : jp.Offers) (hb : jp.mayBorrow) (hlt : jp.numSlots < 2 * jp.numAvailSlots - 1) :
    getNumSlots (lentTwice jp) = lentTwice jp := by
  have hone : jp.allInOne = false := by
    simp only [JobCands.mayBorrow, Bool.and_eq_true, Bool.not_eq_true'] at hb
    exact hb.2
  have ha := h.avail
  have hc : clampCand (lentTwice jp) (allLent 0 (jp.numAvailSlots - 1)) = allLent 0 (jp.numAvailSlots - 1) := by
    simp only [clampCand, allLent, lentTwice, CandHost.mk.injEq, true_and, and_true]
    omega
  have hc' : clampCand (lentTwice jp) (allLent 1 jp.numAvailSlots) = allLent 1 jp.numAvailSlots := by
    simp only [clampCand, allLent, lentTwice, CandHost.mk.injEq, true_and, and_true]
    omega
  have hloop : getNumSlotsLoop (lentTwice jp) [] (lentTwice jp).candPtr 0 0 =
      ((lentTwice jp).candPtr, 2 * jp.numAvailSlots - 1, 2 * jp.numAvailSlots - 1) := by
    have hone' : (lentTwice jp).allInOne = false := hone
    have hcands : (lentTwice jp).candPtr = [allLent 0 (jp.numAvailSlots - 1), allLent 1 jp.numAvailSlots] := rfl
    rw [hcands]
    simp only [getNumSlotsLoop, hone', hc, hc', Bool.false_eq_true, false_and, if_false]
    simp only [allLent, nil_append, cons_append, Prod.mk.injEq, true_and]
    omega
  unfold getNumSlots
  rw [hloop]
  have hmin : min jp.numSlots (2 * jp.numAvailSlots - 1) = jp.numSlots := by omega
  have hmin' : min jp.numAvailSlots (2 * jp.numAvailSlots - 1) = jp.numAvailSlots := by omega
  simp only [lentTwice, hmin, hmin']

theorem getNumProcs_lentTwice (h : jp.Offers) (hb : jp.mayBorrow) (hlt : jp.numSlots < 2 * jp.numAvailSlots - 1)
    (hmax : jp.numSlots < jp.maxNumProcessors) (hpro : jp.numProcessors ≤ 2 * jp.numAvailSlots - 1) (s : Mbd) :
    (getNumProcs s (lentTwice jp)).numAvailEligProc = min (2 * jp.numAvailSlots - 1) jp.maxNumProcessors := by
  have ha := h.avail
  have hp := h.procs
  have hb' : (lentTwice jp).backfills := by
    rw [JobCands.backfills_eq, Bool.and_eq_true]
    exact ⟨hb, rfl⟩
  have hsort : sortBackfillee (lentTwice jp) =
      [⟨0, 0, jp.numAvailSlots - 1⟩, ⟨0, 1, jp.numAvailSlots⟩] := by
    simp [sortBackfillee, lentTwice, allLent, insertIntoSortedBackfilleeList]
  have hbor : (borrow (lentTwice jp) (sortBackfillee (lentTwice jp)) [] 0).2 =
      min (2 * jp.numAvailSlots - 1) jp.maxNumProcessors := by
    have hpos : 0 < jp.numAvailSlots ∧ 0 < jp.maxNumProcessors := by omega
    have hfirst : min (jp.numAvailSlots - 1) (min (jp.numAvailSlots - 1) (jp.maxNumProcessors - 0)) =
        jp.numAvailSlots - 1 := by omega
    have hgo : 0 + (jp.numAvailSlots - 1) < jp.numAvailSlots ∧ 0 + (jp.numAvailSlots - 1) < jp.maxNumProcessors := by
      omega
    rw [hsort]
    simp only [borrow, borrowOn, lentTwice, allLent, JobCands.cand, hpos, hgo, hfirst, and_self, if_true, getD_cons_zero,
      getD_cons_succ, zero_ne_one, if_false]
    omega
  rw [getNumProcs_borrowed hb' ?_ ?_, hbor]
  · rw [hbor]
    rintro ⟨hgo, -⟩
    simp only [lentTwice] at hgo
    omega
  · rw [hbor]
    simp only [lentTwice]
    omega

/-- Whatever the candidates are, a job that is sent to its hosts has the slots it asks for and its limit allows: exactly if
its limits fit. -/
theorem dispatchAJob_slots_iff (h : jp.Offers) :
    (∀ S j n s candPtr spare out, { jp with candPtr := candPtr, spare := spare }.Offers →
      dispatchAJob S j n ⟨{ jp with candPtr := candPtr, spare := spare }, s⟩ = some out →
        ∀ o ∈ out.log, WithinRequest jp o.numHostPtr) ↔ jp.SlotsFit := by
  refine ⟨fun hall hb => ?_, fun hfit S j n s candPtr spare out ho hrun => ?_⟩
  · by_contra hno
    have ha := h.avail
    have hp := h.procs
    have hlt : jp.numSlots < 2 * jp.numAvailSlots - 1 := by omega
    have hoffers : (lentTwice jp).Offers := by
      refine ⟨?_, ?_, ha, hp⟩ <;> simp [lentTwice, allLent] <;> omega
    have hsame := getNumSlots_lentTwice h hb hlt
    have hn := getNumProcs_lentTwice h hb hlt (by omega) (by omega) .blank
    obtain ⟨out, hrun, o, ho, hnum⟩ := dispatchAJob_sent (s := .blank) (getNumSlots_sound hoffers)
      (by rw [hsame, hn]; simp only [lentTwice]; omega)
    have hle := (hall {} 0 1 .blank _ _ out hoffers hrun o ho).2.2
    rw [hnum, hsame, hn] at hle
    omega
  · exact fun o hmem => dispatchAJob_withinRequest ho hfit hrun o hmem

end

theorem dispatchAJob_slots_bothFree : ∃ out, dispatchAJob {} 0 3 bothFree = some out ∧
    ∀ o ∈ out.log, WithinRequest bothFree.jp o.numHostPtr := by
  have ho : bothFree.jp.Offers := ⟨by decide, by decide, by decide, by decide⟩
  have hs : (dispatchAJob {} 0 3 bothFree).isSome := by decide
  obtain ⟨out, hout⟩ := Option.isSome_iff_exists.mp hs
  exact ⟨out, hout, (dispatchAJob_slots_iff ho).mpr (by decide) {} 0 3 .blank _ _ out ho hout⟩

def fourReserved : Mbd :=
  Run.run (step {}) [.newJob 1 false 7 1 0 { queue := 0, maxNumProcessors := 4 }, .allocHosts 7 4 [(1, 2), (2, 2)],
    .reserveSlots 2 7, .newJob 3 false 0 2 0 { queue := 0, maxNumProcessors := 5 }] .blank

/-- A job that may have three slots is started on four. -/
theorem dispatchAJob_threeOfFour :
    (dispatchAJob {} 0 3 ⟨threeOfFour, fourReserved⟩).map (fun out => (out.ret, out.log.map (·.numHostPtr))) =
      some (.DISP_OK, [4]) ∧ threeOfFour.numSlots = 3 := by
  decide

end OpenLava.Dispatch

import OpenLava.Mbd.Accounts

/-!
# The books of the daemon

An entry says what one job is on the books for: the slots it counts as pending, and the counters in which each slot of
its host array counts once. The counters and accounts are five ledgers over these entries.
-/

namespace OpenLava

open Function Ledger

structure Entry where
  queue : QRef
  user : URef
  hosts : List HRef
  pend : Int -- slots in `numPEND`
  held : Tally -- counters in which each slot of `hosts` counts

namespace Entry

def amount (e : Entry) (c : Counter) : Int :=
  (if c = .numJobs ∨ c = .numPEND then e.pend else 0) + e.hosts.length * e.held c

/-- The entry changed by `dp` pending slots and by `dh` for each slot held. -/
def add (e : Entry) (dp : Int) (dh : Tally) : Entry :=
  { e with pend := e.pend + dp, held := fun c => e.held c + dh c }

structure Sound (e : Entry) : Prop where
  pend_nonneg : 0 ≤ e.pend
  held_nonneg : ∀ c, 0 ≤ e.held c
  held_pend : e.held .numPEND = 0

theorem amount_nonneg {e : Entry} (h : e.Sound) (c : Counter) : 0 ≤ e.amount c := by
  have h1 := h.pend_nonneg
  have h2 : 0 ≤ (e.hosts.length : Int) * e.held c := Int.mul_nonneg (by omega) (h.held_nonneg c)
  unfold amount
  split <;> omega

end Entry

/-- The fields of an account; there is no `numJobs`, and no account counts nothing. -/
def acctCount (a : Option Acct) : Counter → Int :=
  match a with
  | none => fun _ => 0
  | some a => fun
    | .numJobs => 0
    | .numPEND => a .numPEND
    | .numRUN => a .numRUN
    | .numSSUSP => a .numSSUSP
    | .numUSUSP => a .numUSUSP
    | .numRESERVE => a .numRESERVE

def localCount (remote : HRef → Bool) (hosts : List HRef) (h : HRef) : Int :=
  if remote h then 0 else hosts.count h

section

variable (s : Mbd) (e : Entry)

def owesQueue (a : QRef × Counter) : Int := if e.queue = a.1 then e.amount a.2 else 0

def owesUser (a : URef × Counter) : Int :=
  ((e.user :: (s.users e.user).gPtr).count a.1 : Int) * e.amount a.2

def owesHost (a : HRef × Counter) : Int :=
  localCount (fun h => (s.hosts h).remote) e.hosts a.1 * e.held a.2

def owesUAcct (a : QRef × URef × Counter) : Int :=
  if e.queue = a.1 ∧ a.2.2 ≠ .numJobs then
    ((e.user :: (s.users e.user).ancestors).count a.2.1 : Int) * e.amount a.2.2
  else 0

def owesHAcct (a : QRef × HRef × Counter) : Int :=
  if e.queue = a.1 ∧ a.2.2 ≠ .numJobs then
    localCount (fun h => (s.hosts h).remote) e.hosts a.2.1 * e.held a.2.2
  else 0

end

structure SamePlaces (s s' : Mbd) : Prop where
  gPtr : ∀ u, (s'.users u).gPtr = (s.users u).gPtr
  ancestors : ∀ u, (s'.users u).ancestors = (s.users u).ancestors
  remote : ∀ h, (s'.hosts h).remote = (s.hosts h).remote

section

variable (h : SamePlaces s s')

include h

theorem SamePlaces.owesUser : owesUser s' = owesUser s := by
  funext e a; simp only [OpenLava.owesUser, h.gPtr]

theorem SamePlaces.owesHost : owesHost s' = owesHost s := by
  funext e a; simp only [OpenLava.owesHost, h.remote]

theorem SamePlaces.owesUAcct : owesUAcct s' = owesUAcct s := by
  funext e a; simp only [OpenLava.owesUAcct, h.ancestors]

theorem SamePlaces.owesHAcct : owesHAcct s' = owesHAcct s := by
  funext e a; simp only [OpenLava.owesHAcct, h.remote]

end

def Entry.Placed (s : Mbd) (e : Entry) : Prop := ∀ h ∈ e.hosts, (s.hosts h).remote = false

structure Books (E : JobRef → Entry) (s : Mbd) : Prop where
  sound : ∀ j ∈ s.live, (E j).Sound
  placed : ∀ j ∈ s.live, (E j).Placed s
  queue : Balanced s.live (fun j => owesQueue (E j)) fun a => (s.queues a.1).count a.2
  user : Balanced s.live (fun j => owesUser s (E j)) fun a => (s.users a.1).count a.2
  host : Balanced s.live (fun j => owesHost s (E j)) fun a => (s.hosts a.1).count a.2
  uAcct : Balanced s.live (fun j => owesUAcct s (E j)) fun a => acctCount ((s.queues a.1).uAcct a.2.1) a.2.2
  hAcct : Balanced s.live (fun j => owesHAcct s (E j)) fun a => acctCount ((s.queues a.1).hAcct a.2.1) a.2.2
  queue_clamped : ∀ q, (s.queues q).clamped = false
  user_clamped : ∀ u, (s.users u).clamped = false
  host_clamped : ∀ h, (s.hosts h).clamped = false

theorem addValue_of_nonneg (h : 0 ≤ cur + num) : addValue cur num = cur + num :=
  clampAdd_of_nonneg h

theorem overdrawn_eq_false (h : ∀ c, 0 ≤ count c + d c) : overdrawn count d = false := by
  simp only [overdrawn, List.any_eq_false, decide_eq_true_eq]
  intro c _
  have := h c
  omega

theorem addOneAbs_mul (x : Int) (hn : 0 < n) (hu : u = -1 ∨ u = 0 ∨ u = 1) : addOneAbs x (n * u) = x + u := by
  rcases hu with rfl | rfl | rfl <;> simp only [addOneAbs]
  · rw [if_neg (by omega), if_pos (by omega)]; omega
  · simp
  · rw [if_pos (by omega)]

/-- An account without `numJobs` takes these amounts. -/
def acctTally (d : Tally) : Tally := fun c => if c = .numJobs then 0 else d c

theorem acctCount_addUser (jp : JData) (d : Tally) (x : Option Acct) (h : ∀ c, 0 ≤ acctCount x c + acctTally d c)
    (c : Counter) : acctCount (addUser jp d (d .numPEND) x) c = acctCount x c + acctTally d c := by
  cases x with
  | none =>
    by_cases hd : d .numRUN ≠ 0 ∨ d .numSSUSP ≠ 0 ∨ d .numUSUSP ≠ 0 ∨ d .numRESERVE ≠ 0 ∨ d .numPEND ≠ 0
    · simp only [addUser, if_pos hd]
      cases c <;> simp [acctCount, acctTally]
    · simp only [addUser, if_neg hd]
      simp only [not_or, not_not] at hd
      cases c <;> simp [acctCount, acctTally, hd]
  | some a =>
    have hc := h c
    cases c <;> simp [acctCount, acctTally, addUser] at hc ⊢ <;> exact addValue_of_nonneg hc

theorem acctCount_addHost (jp : JData) (d dh : Tally) (hn : 0 < n)
    (hd : ∀ c, c ≠ .numJobs → c ≠ .numPEND → d c = n * dh c) (hu : ∀ c, dh c = -1 ∨ dh c = 0 ∨ dh c = 1)
    (hp : dh .numPEND = 0) (x : Option Acct) (h : ∀ c, 0 ≤ acctCount x c + acctTally dh c) (c : Counter) :
    acctCount (addHost jp d x) c = acctCount x c + acctTally dh c := by
  have ho : ∀ (y : Int) c, c ≠ .numJobs → c ≠ .numPEND → addOneAbs y (d c) = y + dh c := by
    intro y c h1 h2
    rw [hd c h1 h2, addOneAbs_mul y hn (hu c)]
  have hpos : ∀ c, c ≠ .numJobs → c ≠ .numPEND → (0 < d c ↔ 0 < dh c) := by
    intro c h1 h2
    rw [hd c h1 h2]
    exact mul_pos_iff_of_pos_left hn
  cases x with
  | none =>
    by_cases hn : 0 < d .numRUN ∨ 0 < d .numSSUSP ∨ 0 < d .numUSUSP ∨ 0 < d .numRESERVE
    · simp only [addHost, if_pos hn]
      cases c <;> simp [acctCount, acctTally, ho, hp]
    · simp only [addHost, if_neg hn]
      simp only [not_or, hpos _ (by decide : Counter.numRUN ≠ .numJobs) (by decide),
        hpos _ (by decide : Counter.numSSUSP ≠ .numJobs) (by decide),
        hpos _ (by decide : Counter.numUSUSP ≠ .numJobs) (by decide),
        hpos _ (by decide : Counter.numRESERVE ≠ .numJobs) (by decide)] at hn
      have hc := h c
      cases c <;> simp [acctCount, acctTally, hp] at hc ⊢ <;> omega
  | some a => cases c <;> simp [acctCount, acctTally, addHost, ho, hp]

theorem acctCount_updUAcct (jp : JData) (l : List URef) (d : Tally) (t : URef → Option Acct) (u : URef)
    (h0 : ∀ c, 0 ≤ acctCount (t u) c) (h1 : ∀ c, 0 ≤ acctCount (t u) c + l.count u * acctTally d c) (c : Counter) :
    acctCount (updUAcct jp l d (d .numPEND) t u) c = acctCount (t u) c + l.count u * acctTally d c := by
  have h := iterate_add (g := addUser jp d (d .numPEND)) (v := acctCount) (d := acctTally d)
    (P := fun _ => True) (fun x _ _ hx => ⟨trivial, acctCount_addUser jp d x hx⟩) (l.count u) (t u)
    trivial h0 h1
  rw [updUAcct, updateEach_apply]
  exact h.2 c

theorem acctCount_updHAcct (remote : HRef → Bool) (jp : JData) (d dh : Tally)
    (hd : ∀ c, c ≠ .numJobs → c ≠ .numPEND → d c = jp.hPtr.length * dh c) (hu : ∀ c, dh c = -1 ∨ dh c = 0 ∨ dh c = 1)
    (hp : dh .numPEND = 0) (t : HRef → Option Acct) (h : HRef) (h0 : ∀ c, 0 ≤ acctCount (t h) c)
    (h1 : ∀ c, 0 ≤ acctCount (t h) c + localCount remote jp.hPtr h * acctTally dh c) (c : Counter) :
    acctCount (updHAcct remote jp d t h) c = acctCount (t h) c + localCount remote jp.hPtr h * acctTally dh c := by
  rw [updHAcct, updateEach_apply]
  unfold localCount at h1 ⊢
  by_cases hr : remote h
  · simp only [hr, if_true, zero_mul, add_zero]
    change acctCount (id^[_] (t h)) c = _
    rw [iterate_id, id]
  · simp only [hr, Bool.false_eq_true, if_false] at h1 ⊢
    rcases Nat.eq_zero_or_pos jp.hPtr.length with hz | hpos
    · -- an empty array has no slots to count
      have hn : jp.hPtr = [] := List.length_eq_zero_iff.mp hz
      simp [hn]
    · have h := iterate_add (g := addHost jp d) (v := acctCount) (d := acctTally dh) (P := fun _ => True)
        (fun x _ _ hx => ⟨trivial, acctCount_addHost jp d dh (by omega) hd hu hp x hx⟩)
        (jp.hPtr.count h) (t h) trivial h0 h1
      exact h.2 c

section

variable (jp : JData) (d : Tally) (p : Posting) (s : Mbd)

@[simp] theorem updUserData_gPtr (u : URef) : ((updUserData jp d s).users u).gPtr = (s.users u).gPtr := by
  apply updateEach_field UData.gPtr
  intros
  rfl

@[simp] theorem updUserData_ancestors (u : URef) : ((updUserData jp d s).users u).ancestors = (s.users u).ancestors := by
  apply updateEach_field UData.ancestors
  intros
  rfl

@[simp] theorem HData.account_remote (hp : HData) : (hp.account jp d).remote = hp.remote := by
  unfold HData.account
  dsimp only
  split <;> rfl

@[simp] theorem updHostData_remote (h : HRef) : ((updHostData jp d s).hosts h).remote = (s.hosts h).remote :=
  updateEach_field HData.remote _ (fun _ hp => HData.account_remote jp d hp) _ _ h

theorem post_queues : (post jp p s).queues = (updQaccount jp p.acct s).queues := by
  unfold post; split <;> rfl

theorem post_users : (post jp p s).users = (updUserData jp p.acct s).users := by
  unfold post; split <;> rfl

@[simp] theorem post_gPtr (u : URef) : ((post jp p s).users u).gPtr = (s.users u).gPtr := by
  rw [post_users, updUserData_gPtr]

@[simp] theorem post_ancestors (u : URef) : ((post jp p s).users u).ancestors = (s.users u).ancestors := by
  rw [post_users, updUserData_ancestors]

@[simp] theorem post_remote (h : HRef) : ((post jp p s).hosts h).remote = (s.hosts h).remote := by
  unfold post
  split
  · rfl
  · rw [updHostData_remote]; rfl

theorem post_samePlaces : SamePlaces s (post jp p s) :=
  ⟨post_gPtr jp p s, post_ancestors jp p s, post_remote jp p s⟩

end

/-- The posting moves `dp` pending slots and `dh` for each slot of the host array. -/
structure Realises (jp : JData) (p : Posting) (dp : Int) (dh : Tally) : Prop where
  acct : ∀ c, p.acct c = (if c = .numJobs ∨ c = .numPEND then dp else 0) + jp.hPtr.length * dh c
  host : p.host = some dh ∨ p.host = none ∧ ∀ c, dh c = 0
  unit : ∀ c, dh c = -1 ∨ dh c = 0 ∨ dh c = 1
  no_pend : dh .numPEND = 0

/-- The entry is booked where the record's pointers lead. -/
structure Entry.At (e : Entry) (jp : JData) : Prop where
  queue : e.queue = jp.qPtr
  user : e.user = jp.uPtr
  hosts : e.hosts = jp.hPtr

theorem amount_add {e : Entry} (ha : e.At jp)
    (hr : Realises jp p dp dh) (c : Counter) : (e.add dp dh).amount c = e.amount c + p.acct c := by
  rw [hr.acct c]
  simp only [Entry.amount, Entry.add, ha.hosts, mul_add]
  split <;> omega

theorem owes_update (f : Entry → α → Int) (E : JobRef → Entry) (j : JobRef) (e : Entry) :
    (fun i => f (update E j e i)) = update (fun i => f (E i)) j (f e) := by
  funext i
  by_cases hi : i = j
  · subst hi; simp
  · simp [hi]

section

variable {E : JobRef → Entry} {s : Mbd} {j : JobRef} {jp : JData} {p : Posting} {dp : Int} {dh : Tally}

theorem Books.nonneg {owes : Entry → α → Int} (hb : Books E s) (hbal : Balanced s.live (fun i => owes (E i)) book)
    (hj : j ∈ s.live) (he : e.Sound) (hnn : ∀ e : Entry, e.Sound → ∀ a, 0 ≤ owes e a) {d : α → Int}
    (hd : ∀ a, owes e a - owes (E j) a = d a) (a : α) : 0 ≤ book a ∧ 0 ≤ book a + d a := by
  rw [← hd]
  exact hbal.stays_nonneg hj (fun i hi => hnn _ (hb.sound i hi)) (hnn e he) a

theorem Books.post_ledger {owes : Entry → α → Int} (hb : Balanced s.live (fun i => owes (E i)) book) (hj : j ∈ s.live)
    {d : α → Int} (hd : ∀ a, owes e a - owes (E j) a = d a) (hpost : ∀ a, book' a = book a + d a) :
    Balanced s.live (fun i => owes (update E j e i)) book' := by
  rw [owes_update]
  refine hb.post hj _ fun a => ?_
  rw [hd, hpost]

theorem owesQueue_nonneg (e : Entry) (he : e.Sound) (a : QRef × Counter) : 0 ≤ owesQueue e a := by
  unfold owesQueue
  split
  · exact Entry.amount_nonneg he a.2
  · exact le_refl 0

theorem owesUser_nonneg (e : Entry) (he : e.Sound) (a : URef × Counter) : 0 ≤ owesUser s e a :=
  Int.mul_nonneg (by omega) (Entry.amount_nonneg he a.2)

theorem localCount_nonneg (remote : HRef → Bool) (hosts : List HRef) (h : HRef) : 0 ≤ localCount remote hosts h := by
  unfold localCount
  split <;> omega

theorem owesHost_nonneg (e : Entry) (he : e.Sound) (a : HRef × Counter) : 0 ≤ owesHost s e a :=
  Int.mul_nonneg (localCount_nonneg _ _ _) (he.held_nonneg a.2)

theorem owesUAcct_nonneg (e : Entry) (he : e.Sound) (a : QRef × URef × Counter) : 0 ≤ owesUAcct s e a := by
  unfold owesUAcct
  split
  · exact Int.mul_nonneg (by omega) (Entry.amount_nonneg he a.2.2)
  · exact le_refl 0

theorem owesHAcct_nonneg (e : Entry) (he : e.Sound) (a : QRef × HRef × Counter) : 0 ≤ owesHAcct s e a := by
  unfold owesHAcct
  split
  · exact Int.mul_nonneg (localCount_nonneg _ _ _) (he.held_nonneg a.2.2)
  · exact le_refl 0

variable (ha : (E j).At jp) (hr : Realises jp p dp dh)

include ha hr in
theorem owesQueue_add (a : QRef × Counter) : owesQueue ((E j).add dp dh) a - owesQueue (E j) a =
    if jp.qPtr = a.1 then p.acct a.2 else 0 := by
  have := amount_add ha hr a.2
  unfold owesQueue
  rw [show ((E j).add dp dh).queue = (E j).queue from rfl, ha.queue]
  split <;> omega

include ha hr in
theorem owesUser_add (a : URef × Counter) : owesUser s ((E j).add dp dh) a - owesUser s (E j) a =
    ((jp.uPtr :: (s.users jp.uPtr).gPtr).count a.1 : Int) * p.acct a.2 := by
  simp only [owesUser, amount_add ha hr a.2, show ((E j).add dp dh).user = (E j).user from rfl, ha.user]
  ring

include ha in
theorem owesHost_add (a : HRef × Counter) : owesHost s ((E j).add dp dh) a - owesHost s (E j) a =
    localCount (fun h => (s.hosts h).remote) jp.hPtr a.1 * dh a.2 := by
  simp only [owesHost, Entry.add, ha.hosts]
  ring

include ha hr in
theorem owesUAcct_add (a : QRef × URef × Counter) : owesUAcct s ((E j).add dp dh) a - owesUAcct s (E j) a = if jp.qPtr =
    a.1 then ((jp.uPtr :: (s.users jp.uPtr).ancestors).count a.2.1 : Int) * acctTally p.acct a.2.2 else 0 := by
  simp only [owesUAcct, amount_add ha hr a.2.2, show ((E j).add dp dh).user = (E j).user from rfl,
    show ((E j).add dp dh).queue = (E j).queue from rfl, ha.user, ha.queue, acctTally]
  by_cases hq : jp.qPtr = a.1 <;> by_cases hc : a.2.2 = .numJobs <;> simp [hq, hc]
  ring

include ha in
theorem owesHAcct_add (a : QRef × HRef × Counter) : owesHAcct s ((E j).add dp dh) a - owesHAcct s (E j) a = if jp.qPtr =
    a.1 then localCount (fun h => (s.hosts h).remote) jp.hPtr a.2.1 * acctTally dh a.2.2 else 0 := by
  simp only [owesHAcct, Entry.add, ha.hosts, ha.queue, acctTally]
  by_cases hq : jp.qPtr = a.1 <;> by_cases hc : a.2.2 = .numJobs <;> simp [hq, hc]
  ring

theorem post_queues_other (q : QRef) (hq : q ≠ jp.qPtr) : (post jp p s).queues q = s.queues q := by
  rw [post_queues]
  exact update_of_ne hq _ _

theorem post_queues_same : (post jp p s).queues jp.qPtr =
    (s.queues jp.qPtr).account (fun h => (s.hosts h).remote) (s.users jp.uPtr).ancestors jp p.acct := by
  rw [post_queues]
  exact update_self _ _ _

theorem post_users_apply (u : URef) : (post jp p s).users u =
    (updUserData1 (fun h => (s.hosts h).remote) jp p.acct)^[(jp.uPtr :: (s.users jp.uPtr).gPtr).count u] (s.users u) := by
  rw [post_users]
  exact updateEach_apply _ _ _ _

theorem post_hosts_none (h : p.host = none) : (post jp p s).hosts = s.hosts := by
  simp [post, h, updUserData, updQaccount]

theorem post_hosts_some (h : p.host = some d) (hp : HRef) :
    (post jp p s).hosts hp = (HData.account jp d)^[jp.hPtr.count hp] (s.hosts hp) := by
  simp only [post, h, updHostData]
  exact updateEach_apply _ _ _ _

theorem account_iterate (d : Tally) (n : Nat) (hp : HData) (hc : hp.clamped = false) (h0 : ∀ c, 0 ≤ hp.count c)
    (h1 : ∀ c, 0 ≤ hp.count c + (if hp.remote then 0 else (n : Int)) * d c) : ((HData.account jp d)^[n] hp).clamped =
    false ∧ ∀ c, ((HData.account jp d)^[n] hp).count c = hp.count c + (if hp.remote then 0 else (n : Int)) * d c := by
  by_cases hrem : hp.remote
  · have hf : HData.account jp d hp = hp := by simp [HData.account, hrem]
    rw [iterate_fixed hf]
    simpa [hrem] using hc
  · simp only [hrem, Bool.false_eq_true, if_false] at h1 ⊢
    have h := iterate_add (g := HData.account jp d) (v := HData.count) (d := d)
      (P := fun x => x.clamped = false ∧ x.remote = false) (fun x hx _ hx1 => by
        have hod := overdrawn_eq_false hx1
        refine ⟨⟨by simp [HData.account, hx.1, hx.2, hod], by simp [hx.2]⟩, fun c => ?_⟩
        simp only [HData.account, hx.2]
        exact addValue_of_nonneg (hx1 c)) n hp ⟨hc, by simpa using hrem⟩ h0 h1
    exact ⟨h.1.1, h.2⟩

end

section

variable {s : Mbd}

theorem updUserData1_iterate (remote : HRef → Bool) (d : Tally) (n : Nat) (up : UData) (hc : up.clamped = false)
    (h0 : ∀ c, 0 ≤ up.count c) (h1 : ∀ c, 0 ≤ up.count c + n * d c) : ((updUserData1 remote jp d)^[n] up).clamped =
    false ∧ ∀ c, ((updUserData1 remote jp d)^[n] up).count c = up.count c + n * d c := by
  refine iterate_add (v := UData.count) (P := fun x => x.clamped = false) (fun x hx _ hx1 => ?_) n up hc h0 h1
  have hod := overdrawn_eq_false hx1
  exact ⟨by simp [updUserData1, hx, hod], fun c => addValue_of_nonneg (hx1 c)⟩

/-- `updQaccount` skips the host accounts when nothing but `numJobs` changes. -/
theorem acctCount_account_hAcct (remote : HRef → Bool) (ancestors : List URef) (hr : Realises jp p dp dh)
    (qp : QData) (h : HRef) (h0 : ∀ c, 0 ≤ acctCount (qp.hAcct h) c)
    (h1 : ∀ c, 0 ≤ acctCount (qp.hAcct h) c + localCount remote jp.hPtr h * acctTally dh c) (c : Counter) :
    acctCount ((qp.account remote ancestors jp p.acct).hAcct h) c =
      acctCount (qp.hAcct h) c + localCount remote jp.hPtr h * acctTally dh c := by
  have hd : ∀ c, c ≠ .numJobs → c ≠ .numPEND → p.acct c = jp.hPtr.length * dh c := by
    intro c h1 h2
    rw [hr.acct c, if_neg (by simp [h1, h2]), zero_add]
  by_cases hn : p.acct .numRUN = 0 ∧ p.acct .numSSUSP = 0 ∧ p.acct .numUSUSP = 0 ∧
      p.acct .numRESERVE = 0 ∧ p.acct .numPEND = 0
  · have hzero : localCount remote jp.hPtr h * acctTally dh c = 0 := by
      by_cases hnil : jp.hPtr = []
      · simp [localCount, hnil]
      · have hl : (jp.hPtr.length : Int) ≠ 0 := by simpa using hnil
        have hz : ∀ c, c ≠ .numJobs → c ≠ .numPEND → p.acct c = 0 → dh c = 0 := by
          intro c h1 h2 h3
          rw [hd c h1 h2] at h3
          exact (mul_eq_zero.mp h3).resolve_left hl
        cases c <;> simp [acctTally, hr.no_pend, hz, hn]
    simp only [QData.account, if_pos hn, hzero, add_zero]
  · simp only [QData.account, if_neg hn]
    exact acctCount_updHAcct remote jp p.acct dh hd hr.unit hr.no_pend _ h h0 h1 c

/-- Every book stays balanced under a posting that realises the change of one entry. -/
theorem Books.post (hb : Books E s) (hj : j ∈ s.live) (ha : (E j).At jp) (hr : Realises jp p dp dh)
    (hs : ((E j).add dp dh).Sound) : Books (update E j ((E j).add dp dh)) (post jp p s) := by
  have hq := hb.nonneg hb.queue hj hs owesQueue_nonneg (owesQueue_add ha hr)
  have huser := hb.nonneg hb.user hj hs owesUser_nonneg (owesUser_add ha hr)
  have hhost := hb.nonneg hb.host hj hs owesHost_nonneg (owesHost_add ha)
  have huAcct := hb.nonneg hb.uAcct hj hs owesUAcct_nonneg (owesUAcct_add ha hr)
  have hhAcct := hb.nonneg hb.hAcct hj hs owesHAcct_nonneg (owesHAcct_add ha)
  have hsame : ∀ c, 0 ≤ (s.queues jp.qPtr).count c + p.acct c := fun c => by
    simpa using (hq (jp.qPtr, c)).2
  have hu : ∀ u, ((OpenLava.post jp p s).users u).clamped = false ∧
      ∀ c, ((OpenLava.post jp p s).users u).count c = (s.users u).count c +
        ((jp.uPtr :: (s.users jp.uPtr).gPtr).count u : Int) * p.acct c := by
    intro u
    rw [post_users_apply]
    exact updUserData1_iterate _ _ _ _ (hb.user_clamped u) (fun c => (huser (u, c)).1) fun c => (huser (u, c)).2
  have hhos : ∀ h, ((OpenLava.post jp p s).hosts h).clamped = false ∧
      ∀ c, ((OpenLava.post jp p s).hosts h).count c = (s.hosts h).count c +
        localCount (fun h => (s.hosts h).remote) jp.hPtr h * dh c := by
    intro h
    rcases hr.host with hsome | ⟨hn, hz⟩
    · rw [post_hosts_some hsome]
      exact account_iterate dh _ _ (hb.host_clamped h) (fun c => (hhost (h, c)).1) fun c => (hhost (h, c)).2
    · rw [post_hosts_none hn]
      exact ⟨hb.host_clamped h, fun c => by simp [hz c]⟩
  refine ⟨?_, ?_, ?_, ?_, ?_, ?_, ?_, ?_, fun u => (hu u).1, fun h => (hhos h).1⟩
  · -- the entries are sound
    intro i hi
    by_cases hij : i = j
    · subst hij; simpa using hs
    · rw [update_of_ne hij]
      exact hb.sound i (by simpa using hi)
  · -- and on hosts of the cluster
    intro i hi h hh
    rw [post_live] at hi
    rw [post_remote]
    by_cases hij : i = j
    · subst hij
      rw [update_self] at hh
      exact hb.placed i hi h hh
    · rw [update_of_ne hij] at hh
      exact hb.placed i hi h hh
  · -- the queues' counters
    rw [post_live]
    refine Books.post_ledger hb.queue hj (owesQueue_add ha hr) fun a => ?_
    by_cases hq : a.1 = jp.qPtr
    · rw [hq, post_queues_same, if_pos rfl]
      exact addValue_of_nonneg (hsame a.2)
    · rw [post_queues_other _ hq, if_neg (Ne.symm hq)]
      omega
  · -- the users' counters
    rw [post_live, (post_samePlaces jp p s).owesUser]
    exact Books.post_ledger hb.user hj (owesUser_add ha hr) fun a => (hu a.1).2 a.2
  · -- the hosts' counters
    rw [post_live, (post_samePlaces jp p s).owesHost]
    exact Books.post_ledger hb.host hj (owesHost_add ha) fun a => (hhos a.1).2 a.2
  · -- the user accounts of the queues
    rw [post_live, (post_samePlaces jp p s).owesUAcct]
    refine Books.post_ledger hb.uAcct hj (owesUAcct_add ha hr) fun a => ?_
    by_cases hq : a.1 = jp.qPtr
    · rw [hq, post_queues_same, if_pos rfl]
      refine acctCount_updUAcct jp _ p.acct _ a.2.1 (fun c => (huAcct (jp.qPtr, a.2.1, c)).1) (fun c => ?_) a.2.2
      simpa using (huAcct (jp.qPtr, a.2.1, c)).2
    · rw [post_queues_other _ hq, if_neg (Ne.symm hq)]
      omega
  · -- the host accounts of the queues
    rw [post_live, (post_samePlaces jp p s).owesHAcct]
    refine Books.post_ledger hb.hAcct hj (owesHAcct_add ha) fun a => ?_
    by_cases hq : a.1 = jp.qPtr
    · rw [hq, post_queues_same, if_pos rfl]
      have h1 : ∀ c, 0 ≤ acctCount ((s.queues jp.qPtr).hAcct a.2.1) c +
          localCount (fun h => (s.hosts h).remote) jp.hPtr a.2.1 * acctTally dh c := fun c => by
        simpa using (hhAcct (jp.qPtr, a.2.1, c)).2
      exact acctCount_account_hAcct _ _ hr _ a.2.1 (fun c => (hhAcct (jp.qPtr, a.2.1, c)).1) h1 a.2.2
    · rw [post_queues_other _ hq, if_neg (Ne.symm hq)]
      omega
  · intro q
    by_cases hq : q = jp.qPtr
    · rw [hq, post_queues_same]
      simp [QData.account, hb.queue_clamped, overdrawn_eq_false hsame]
    · rw [post_queues_other _ hq]
      exact hb.queue_clamped q

structure SameBooks (s s' : Mbd) : Prop extends SamePlaces s s' where
  live : s'.live = s.live
  queue_count : ∀ q, (s'.queues q).count = (s.queues q).count
  queue_uAcct : ∀ q, (s'.queues q).uAcct = (s.queues q).uAcct
  queue_hAcct : ∀ q, (s'.queues q).hAcct = (s.queues q).hAcct
  queue_clamped : ∀ q, (s'.queues q).clamped = (s.queues q).clamped
  user_count : ∀ u, (s'.users u).count = (s.users u).count
  user_clamped : ∀ u, (s'.users u).clamped = (s.users u).clamped
  host_count : ∀ h, (s'.hosts h).count = (s.hosts h).count
  host_clamped : ∀ h, (s'.hosts h).clamped = (s.hosts h).clamped

theorem SameBooks.of_eq (hl : s'.live = s.live) (hq : s'.queues = s.queues)
    (hu : s'.users = s.users) (hh : s'.hosts = s.hosts) : SameBooks s s' := by
  constructor <;> (try constructor) <;> simp [hl, hq, hu, hh]

theorem SameBooks.refl (s : Mbd) : SameBooks s s := .of_eq rfl rfl rfl rfl

theorem SameBooks.trans {s1 s2 s3 : Mbd} (h : SameBooks s1 s2) (h' : SameBooks s2 s3) : SameBooks s1 s3 where
  gPtr u := (h'.gPtr u).trans (h.gPtr u)
  ancestors u := (h'.ancestors u).trans (h.ancestors u)
  remote u := (h'.remote u).trans (h.remote u)
  live := h'.live.trans h.live
  queue_count q := (h'.queue_count q).trans (h.queue_count q)
  queue_uAcct q := (h'.queue_uAcct q).trans (h.queue_uAcct q)
  queue_hAcct q := (h'.queue_hAcct q).trans (h.queue_hAcct q)
  queue_clamped q := (h'.queue_clamped q).trans (h.queue_clamped q)
  user_count u := (h'.user_count u).trans (h.user_count u)
  user_clamped u := (h'.user_clamped u).trans (h.user_clamped u)
  host_count x := (h'.host_count x).trans (h.host_count x)
  host_clamped x := (h'.host_clamped x).trans (h.host_clamped x)

theorem SameBooks.books {s' : Mbd} (h : SameBooks s s') (hb : Books E s) : Books E s' where
  sound := by rw [h.live]; exact hb.sound
  placed := by
    intro i hi x hx
    rw [h.remote]
    exact hb.placed i (h.live ▸ hi) x hx
  queue := by simpa only [h.live, h.queue_count] using hb.queue
  user := by simpa only [h.live, h.user_count, h.owesUser] using hb.user
  host := by simpa only [h.live, h.host_count, h.owesHost] using hb.host
  uAcct := by simpa only [h.live, h.queue_uAcct, h.owesUAcct] using hb.uAcct
  hAcct := by simpa only [h.live, h.queue_hAcct, h.owesHAcct] using hb.hAcct
  queue_clamped q := by rw [h.queue_clamped]; exact hb.queue_clamped q
  user_clamped u := by rw [h.user_clamped]; exact hb.user_clamped u
  host_clamped x := by rw [h.host_clamped]; exact hb.host_clamped x

/-- Entries that are on the books for the same amounts. -/
structure Entry.Same (s : Mbd) (e e' : Entry) : Prop where
  queue : owesQueue e = owesQueue e'
  user : owesUser s e = owesUser s e'
  host : owesHost s e = owesHost s e'
  uAcct : owesUAcct s e = owesUAcct s e'
  hAcct : owesHAcct s e = owesHAcct s e'

theorem Books.congr {E' : JobRef → Entry} (hb : Books E s) (hs : ∀ i ∈ s.live, (E' i).Sound ∧ (E' i).Placed s)
    (h : ∀ i ∈ s.live, (E i).Same s (E' i)) : Books E' s where
  sound i hi := (hs i hi).1
  placed i hi := (hs i hi).2
  queue := hb.queue.congr fun i hi a => congrFun (h i hi).queue a
  user := hb.user.congr fun i hi a => congrFun (h i hi).user a
  host := hb.host.congr fun i hi a => congrFun (h i hi).host a
  uAcct := hb.uAcct.congr fun i hi a => congrFun (h i hi).uAcct a
  hAcct := hb.hAcct.congr fun i hi a => congrFun (h i hi).hAcct a
  queue_clamped := hb.queue_clamped
  user_clamped := hb.user_clamped
  host_clamped := hb.host_clamped

theorem Books.replace (hb : Books E s) (hs : e.Sound) (hp : e.Placed s) (h : (E j).Same s e) : Books (update E j e) s := by
  refine hb.congr (fun i hi => ?_) fun i hi => ?_
  · by_cases hij : i = j
    · subst hij; simpa using ⟨hs, hp⟩
    · simpa [hij] using ⟨hb.sound i hi, hb.placed i hi⟩
  · by_cases hij : i = j
    · subst hij; simpa using h
    · rw [update_of_ne hij]
      exact ⟨rfl, rfl, rfl, rfl, rfl⟩

def Entry.Zero (e : Entry) : Prop := e.pend = 0 ∧ ∀ c, e.held c = 0

theorem Entry.Zero.sound {e : Entry} (h : e.Zero) : e.Sound :=
  ⟨by rw [h.1], fun c => by rw [h.2 c], h.2 _⟩

theorem Entry.Zero.amount {e : Entry} (h : e.Zero) (c : Counter) : e.amount c = 0 := by
  simp [Entry.amount, h.1, h.2 c]

theorem Entry.Zero.same {e e' : Entry} (h : e.Zero) (h' : e'.Zero) : e.Same s e' := by
  constructor <;> funext a <;>
    simp [owesQueue, owesUser, owesHost, owesUAcct, owesHAcct, h.amount, h'.amount, h.2, h'.2]

theorem Entry.same_hosts {e : Entry} (hosts : List HRef) (h : ∀ c, e.held c = 0) : e.Same s { e with hosts } := by
  constructor <;> funext a <;>
    simp [owesQueue, owesUser, owesHost, owesUAcct, owesHAcct, Entry.amount, h]

theorem Books.enter (hb : Books E s) (hj : j ∉ s.live) {e : Entry} (he : e.Zero) (hp : e.Placed s) :
    Books (update E j e) { s with live := insert j s.live } := by
  have hz : Books (update E j e) s := by
    refine hb.congr (fun i hi => ?_) fun i hi => ?_ <;>
      rw [update_of_ne (show i ≠ j by rintro rfl; exact hj hi)]
    · exact ⟨hb.sound i hi, hb.placed i hi⟩
    · exact ⟨rfl, rfl, rfl, rfl, rfl⟩
  have hs : ∀ {α : Type} {owes : Entry → α → Int} {book : α → Int}, (∀ a, owes e a = 0) →
      Balanced s.live (fun i => owes (update E j e i)) book →
      Balanced (insert j s.live) (fun i => owes (update E j e i)) book := by
    intro α owes book h0 hbal a
    rw [hbal a, total_insert hj, update_self, h0, zero_add]
  refine ⟨fun i hi => ?_, fun i hi => ?_, hs ?_ hz.queue, hs ?_ hz.user, hs ?_ hz.host, hs ?_ hz.uAcct,
    hs ?_ hz.hAcct, hb.queue_clamped, hb.user_clamped, hb.host_clamped⟩
  · rcases Finset.mem_insert.mp hi with rfl | hi
    · simpa using he.sound
    · exact hz.sound i hi
  · rcases Finset.mem_insert.mp hi with rfl | hi
    · rw [update_self]
      exact hp
    · exact hz.placed i hi
  all_goals
    intro a
    simp [owesQueue, owesUser, owesHost, owesUAcct, owesHAcct, he.amount, he.2]

def Entry.pending (queue : QRef) (user : URef) (pend : Int) : Entry :=
  { queue, user, hosts := [], pend, held := fun _ => 0 }

theorem Entry.same_pending {e : Entry} (h : ∀ c, e.held c = 0) : e.Same s (.pending e.queue e.user e.pend) := by
  constructor <;> funext a <;>
    simp [owesQueue, owesUser, owesHost, owesUAcct, owesHAcct, Entry.amount, Entry.pending, h]

theorem Entry.pending_amount_mul (q : QRef) (u : URef) (n x : Int) (c : Counter) :
    (Entry.pending q u (n * x)).amount c = n * (Entry.pending q u x).amount c := by
  simp only [Entry.amount, Entry.pending, List.length_nil, mul_zero, add_zero]
  split <;> simp

theorem Books.spread {E' : JobRef → Entry} {P : Finset JobRef} {q : QRef} {u : URef} {x : Int} (hb : Books E s)
    (hP : P ⊆ s.live) (hj : j ∈ P) (hs : ∀ i ∈ s.live, (E' i).Sound ∧ (E' i).Placed s) (hrest : ∀ i ∈ s.live, i ∉ P → E' i = E i)
    (hall : (E j).Same s (.pending q u (P.card * x))) (hz : ∀ i ∈ P, i ≠ j → (E i).Zero)
    (hsha : ∀ i ∈ P, (E' i).Same s (.pending q u x)) : Books E' s where
  sound i hi := (hs i hi).1
  placed i hi := (hs i hi).2
  queue := hb.queue.spread (owesQueue (.pending q u x)) hP hj (fun i hi hp a => by rw [hrest i hi hp])
    (fun a => by
      rw [hall.queue, owesQueue, owesQueue, Entry.pending_amount_mul, mul_ite, mul_zero]
      rfl)
    (fun i hi hne a => by simp [owesQueue, (hz i hi hne).amount]) fun i hi a => congrFun (hsha i hi).queue a
  user := hb.user.spread (owesUser s (.pending q u x)) hP hj (fun i hi hp a => by rw [hrest i hi hp])
    (fun a => by
      rw [hall.user, owesUser, owesUser, Entry.pending_amount_mul]
      exact mul_left_comm _ _ _)
    (fun i hi hne a => by simp [owesUser, (hz i hi hne).amount]) fun i hi a => congrFun (hsha i hi).user a
  host := hb.host.spread (owesHost s (.pending q u x)) hP hj (fun i hi hp a => by rw [hrest i hi hp])
    (fun a => by rw [hall.host]; simp [owesHost, Entry.pending])
    (fun i hi hne a => by simp [owesHost, (hz i hi hne).2]) fun i hi a => congrFun (hsha i hi).host a
  uAcct := hb.uAcct.spread (owesUAcct s (.pending q u x)) hP hj (fun i hi hp a => by rw [hrest i hi hp])
    (fun a => by
      rw [hall.uAcct, owesUAcct, owesUAcct, Entry.pending_amount_mul, mul_ite, mul_zero, mul_left_comm]
      rfl)
    (fun i hi hne a => by simp [owesUAcct, (hz i hi hne).amount]) fun i hi a => congrFun (hsha i hi).uAcct a
  hAcct := hb.hAcct.spread (owesHAcct s (.pending q u x)) hP hj (fun i hi hp a => by rw [hrest i hi hp])
    (fun a => by rw [hall.hAcct]; simp [owesHAcct, Entry.pending])
    (fun i hi hne a => by simp [owesHAcct, (hz i hi hne).2]) fun i hi a => congrFun (hsha i hi).hAcct a
  queue_clamped := hb.queue_clamped
  user_clamped := hb.user_clamped
  host_clamped := hb.host_clamped

theorem Books.leave (hb : Books E s) (he : (E j).Zero) : Books E { s with live := s.live.erase j } where
  sound i hi := hb.sound i (Finset.mem_of_mem_erase hi)
  placed i hi := hb.placed i (Finset.mem_of_mem_erase hi)
  queue := hb.queue.leave fun a => by simp [owesQueue, he.amount]
  user := hb.user.leave fun a => by simp [owesUser, he.amount]
  host := hb.host.leave fun a => by simp [owesHost, he.2]
  uAcct := hb.uAcct.leave fun a => by simp [owesUAcct, he.amount]
  hAcct := hb.hAcct.leave fun a => by simp [owesHAcct, he.2]
  queue_clamped := hb.queue_clamped
  user_clamped := hb.user_clamped
  host_clamped := hb.host_clamped

end

end OpenLava

import OpenLava.Lim.Master

/-!
# The master announced in turn

`announceMaster` at the master's ticks: a counter tells which slice of the host list a call is for.
-/

namespace OpenLava.Announce

open List

inductive RegFlags where
  | SEND_NO_INFO | SEND_CONF_INFO | SEND_ELIM_REQ
  deriving DecidableEq, Repr

/-- What is known of the hosts at the time of a call. -/
structure Known where
  (infoValid callElim : Lim.HostNode → Bool)

def flags (k : Known) (hPtr : Lim.HostNode) : RegFlags :=
  if k.infoValid hPtr then if k.callElim hPtr then .SEND_ELIM_REQ else .SEND_NO_INFO else .SEND_CONF_INFO

/-- A broadcast: the new value of `cnt`, and what is sent to whom. `numHosts` is what `clPtr->numHosts` has; hosts that are
added later are in the list, but not counted. -/
def announceMaster (cfg : Lim.Config) (numHosts periods : Nat) (all : Bool) (k : Known) (cnt : Nat) :
    Nat × List (Lim.HostNode × RegFlags) :=
  let cnt := if all then cnt else if cnt + 1 > periods - 1 then 0 else cnt + 1
  let announceInIntvl := if numHosts / periods = 0 then 1 else numHosts / periods
  let hosts :=
    if all then cfg.hostList.take numHosts
    -- the last slice has the rest of the hosts
    else (cfg.hostList.drop (cnt * announceInIntvl)).take (if cnt = periods - 1 then numHosts else announceInIntvl)
  (cnt, (hosts.filter (· ≠ cfg.myHostPtr)).map fun hPtr => (hPtr, flags k hPtr))

/-- As many periodic calls in a row. -/
def announcements (cfg : Lim.Config) (numHosts periods : Nat) (known : Nat → Known) :
    Nat → Nat → List (Lim.HostNode × RegFlags)
  | 0, _ => []
  | n + 1, cnt =>
    let (cnt, sent) := announceMaster cfg numHosts periods false (known n) cnt
    sent ++ announcements cfg numHosts periods known n cnt

/-- The hosts of a slice but the last, with `p + 1` periods. -/
def sliceLength (numHosts p : Nat) : Nat := max 1 (numHosts / (p + 1))

/-- The hosts that a call with this counter is for. -/
def slice (hosts : List Lim.HostNode) (numHosts p cnt : Nat) : List Lim.HostNode :=
  (hosts.drop (cnt * sliceLength numHosts p)).take (if cnt = p then numHosts else sliceLength numHosts p)

theorem slices_flatMap (hosts : List Lim.HostNode) (numHosts p : Nat) :
    (range (p + 1)).flatMap (slice hosts numHosts p) = hosts.take (p * sliceLength numHosts p + numHosts) := by
  have hf : ∀ n ≤ p, (range n).flatMap (slice hosts numHosts p) = hosts.take (n * sliceLength numHosts p) := by
    intro n hn
    induction n with
    | zero => simp
    | succ n ih =>
      rw [range_succ, flatMap_append, ih (by omega), Nat.succ_mul, take_add]
      simp [slice, show n ≠ p by omega]
  rw [range_succ, flatMap_append, hf p le_rfl, take_add]
  simp [slice]

variable (cfg : Lim.Config) (numHosts p : Nat)

theorem announceMaster_eq (k : Known) (cnt : Nat) :
    (announceMaster cfg numHosts (p + 1) false k cnt).1 = (min cnt p + 1) % (p + 1) ∧
      (announceMaster cfg numHosts (p + 1) false k cnt).2.map Prod.fst =
        (slice cfg.hostList numHosts p ((min cnt p + 1) % (p + 1))).filter (· ≠ cfg.myHostPtr) := by
  have hc : (if cnt + 1 > p then 0 else cnt + 1) = (min cnt p + 1) % (p + 1) := by
    split_ifs with h
    · rw [min_eq_right (by omega), Nat.mod_self]
    · rw [min_eq_left (by omega), Nat.mod_eq_of_lt (by omega)]
  have hs : (if numHosts / (p + 1) = 0 then 1 else numHosts / (p + 1)) = sliceLength numHosts p := by
    unfold sliceLength
    split_ifs with h
    · rw [h, max_eq_left zero_le_one]
    · exact (max_eq_right (Nat.pos_of_ne_zero h)).symm
  simp only [announceMaster, Bool.false_eq_true, if_false, Nat.add_sub_cancel, hc, hs, slice, true_and]
  simp [Function.comp_def]

theorem announcements_eq (known : Nat → Known) (n cnt : Nat) :
    (announcements cfg numHosts (p + 1) known n cnt).map Prod.fst =
      (((range n).map fun i => (min cnt p + 1 + i) % (p + 1)).flatMap (slice cfg.hostList numHosts p)).filter
        (· ≠ cfg.myHostPtr) := by
  induction n generalizing cnt with
  | zero => rfl
  | succ n ih =>
    obtain ⟨hc, hsent⟩ := announceMaster_eq cfg numHosts p (known n) cnt
    have hlt : (min cnt p + 1) % (p + 1) ≤ p := Nat.lt_succ_iff.mp (Nat.mod_lt _ p.succ_pos)
    have hs (i : Nat) : ((min cnt p + 1) % (p + 1) + 1 + i) % (p + 1) = (min cnt p + 1 + (i + 1)) % (p + 1) := by
      rw [Nat.add_assoc, Nat.mod_add_mod, Nat.add_comm 1 i]
    rw [announcements, map_append, ih, hc, hsent, range_succ_eq_map, min_eq_left hlt]
    simp [hs, Function.comp_def]

/-- A cycle of calls reaches a first part of the list. -/
theorem announcements_perm (known : Nat → Known) (cnt : Nat) :
    (announcements cfg numHosts (p + 1) known (p + 1) cnt).map Prod.fst ~
      (cfg.hostList.take (p * sliceLength numHosts p + numHosts)).filter (· ≠ cfg.myHostPtr) := by
  have hturn : ((range (p + 1)).map fun i => (min cnt p + 1 + i) % (p + 1)) = (range (p + 1)).rotate (min cnt p + 1) :=
    ext_getElem (by simp) (by simp [getElem_rotate, Nat.add_comm])
  rw [announcements_eq, hturn]
  refine Perm.filter _ ?_
  exact ((rotate_perm _ _).flatMap_right _).trans (.of_eq (slices_flatMap ..))

theorem filter_take_perm_iff {α : Type} (q : α → Bool) (n : Nat) (l : List α) :
    (l.take n).filter q ~ l.filter q ↔ ∀ x ∈ l.drop n, q x = false := by
  have hl : l.filter q = (l.take n).filter q ++ (l.drop n).filter q := by
    rw [← filter_append, take_append_drop]
  constructor
  · intro h x hx
    have hlen := h.length_eq
    rw [hl, length_append, Nat.left_eq_add, length_eq_zero_iff, filter_eq_nil_iff] at hlen
    simpa using hlen x hx
  · intro h
    have hn : (l.drop n).filter q = [] := filter_eq_nil_iff.mpr fun x hx => by simp [h x hx]
    rw [hl, hn, append_nil]

/-- As many calls in a row as there are periods tell every host but the master, once, exactly if the list has no other
hosts than what the last slice reaches. -/
theorem announcements_perm_iff (known : Nat → Known) (cnt : Nat) :
    (announcements cfg numHosts (p + 1) known (p + 1) cnt).map Prod.fst ~ cfg.hostList.filter (· ≠ cfg.myHostPtr) ↔
      ∀ hPtr ∈ cfg.hostList.drop (p * sliceLength numHosts p + numHosts), hPtr = cfg.myHostPtr := by
  rw [(announcements_perm cfg numHosts p known cnt).congr_left, filter_take_perm_iff]
  simp

/-- The master, the one host of the configuration, with 13 that were added. -/
def grown : Lim.Config where
  clName := ['c']
  hostList := (range 14).map fun n => ⟨['h'], n⟩
  myHostPtr := ⟨['h'], 0⟩
  myHostPtr_mem := by decide
  hostInactivityLimit := 5
  masterInactivityLimit := 2
  retryLimit := 2
  computeOnly := false

/-- In 12 periods the last of the added hosts is not told. -/
theorem announcements_grown : ¬ (announcements grown 1 12 (fun _ => ⟨fun _ => true, fun _ => false⟩) 12 0).map Prod.fst ~
    grown.hostList.filter (· ≠ grown.myHostPtr) := by
  decide +kernel

end OpenLava.Announce

import Mathlib.Tactic

/-!
# Job status words

The bits of `jStatus` under `MASK_INT_JOB_STAT` are the status that users see; the bits above it are internal and
survive a status change. Both halves are records of Booleans, so that `s & JOB_STAT_RUN` is a field and a `case` label
of a C switch is an equation between whole masks.
-/

namespace OpenLava

/-- The status bits under `MASK_INT_JOB_STAT`. -/
structure Mask where
  (pend psusp run ssusp ususp exit done pdone perr wait unkwn : Bool := false)
  deriving DecidableEq, Repr

namespace Mask

def PEND : Mask := { pend := true }
def PSUSP : Mask := { psusp := true }
def RUN : Mask := { run := true }
def SSUSP : Mask := { ssusp := true }
def USUSP : Mask := { ususp := true }
def EXIT : Mask := { exit := true }
def DONE : Mask := { done := true }
/-- `JOB_STAT_RUN | JOB_STAT_WAIT`, for chunk members that have not begun yet. -/
def RWAIT : Mask := { run := true, wait := true }

/-- `s & ~JOB_STAT_UNKWN` -/
def known (m : Mask) : Mask := { m with unkwn := false }

def isPend (m : Mask) : Bool := m.pend || m.psusp
def isStart (m : Mask) : Bool := m.run || m.ssusp || m.ususp
def isFinish (m : Mask) : Bool := m.done || m.exit
def isSusp (m : Mask) : Bool := m.psusp || m.ssusp || m.ususp
def isPostFinish (m : Mask) : Bool := m.pdone || m.perr

end Mask

/-- The mask and the internal bits the modelled functions use. -/
structure JStatus where
  mask : Mask
  (reserve mig modifyOnce zombie preExec signal kill chkpntedOnce : Bool := false)
  deriving DecidableEq, Repr

namespace JStatus

/-- `SET_STATE(s, n)`: the internal bits stay. -/
def setState (s : JStatus) (n : Mask) : JStatus := { s with mask := n }

@[simp] theorem setState_mask (s : JStatus) (n : Mask) : (s.setState n).mask = n := rfl
@[simp] theorem setState_reserve (s : JStatus) (n : Mask) : (s.setState n).reserve = s.reserve := rfl
@[simp] theorem setState_mig (s : JStatus) (n : Mask) : (s.setState n).mig = s.mig := rfl
@[simp] theorem setState_modifyOnce (s : JStatus) (n : Mask) : (s.setState n).modifyOnce = s.modifyOnce := rfl

end JStatus

namespace Mask

/-- The phase of a job, as far as slots are concerned; waiting in a chunk is running. -/
inductive Phase where
  | pending | running | ssusp | ususp | finished
  deriving DecidableEq, Repr

/-- The masks a job can carry: those of `case` labels, with or without `JOB_STAT_UNKWN`. -/
def phase (m : Mask) : Option Phase :=
  if m.isFinish then
    if m.pend || m.psusp || m.run || m.ssusp || m.ususp || m.wait || (m.exit && m.done) then none
    else some .finished
  else if m.known = PEND ∨ m.known = PSUSP then some .pending
  else if m.known = RUN ∨ m.known = RWAIT then some .running
  else if m.known = SSUSP then some .ssusp
  else if m.known = USUSP then some .ususp
  else none

section

variable {m : Mask} {ph : Phase}

/-- The mask by its phase: only these bits are free. -/
theorem phase_form (h : m.phase = some ph) : match ph with
    | .pending => ∃ p u, m = { pend := p, psusp := !p, unkwn := u }
    | .running => ∃ w u, m = { run := true, wait := w, unkwn := u }
    | .ssusp => ∃ u, m = { ssusp := true, unkwn := u }
    | .ususp => ∃ u, m = { ususp := true, unkwn := u }
    | .finished => ∃ e d r u, m = { exit := e, done := !e, pdone := d, perr := r, unkwn := u } := by
  rcases m with ⟨_, _, _, _, _, e, d, _, _, _, _⟩
  simp only [phase, known, isFinish, PEND, PSUSP, RUN, RWAIT, SSUSP, USUSP, mk.injEq] at h
  split_ifs at h <;> cases h <;> simp_all
  all_goals grind

/-- What the tests of the source say about a mask in a known phase. -/
structure Reads (m : Mask) (ph : Phase) : Prop where
  run : m.run = decide (ph = .running)
  ssusp : m.ssusp = decide (ph = .ssusp)
  ususp : m.ususp = decide (ph = .ususp)
  isPend : m.isPend = decide (ph = .pending)
  psusp : m.psusp = (decide (ph = .pending) && !m.pend)
  isStart : m.isStart = decide (ph = .running ∨ ph = .ssusp ∨ ph = .ususp)
  isFinish : m.isFinish = decide (ph = .finished)
  wait : ph ≠ .running → m.wait = false
  known_RUN : m.known = RUN ↔ ph = .running ∧ m.wait = false
  known_SSUSP : m.known = SSUSP ↔ ph = .ssusp
  known_USUSP : m.known = USUSP ↔ ph = .ususp
  known_PEND : m.known = PEND ↔ ph = .pending ∧ m.pend
  known_pending : m.known = PEND ∨ m.known = PSUSP ↔ ph = .pending
  known_finished : m.known = EXIT ∨ m.known = DONE ↔ ph = .finished ∧ m.isPostFinish = false

theorem phase_reads (h : m.phase = some ph) : m.Reads ph := by
  have hm := phase_form h
  cases ph with
  | pending =>
    obtain ⟨p, u, rfl⟩ := hm
    cases p <;> constructor <;> simp [Mask.isPend, Mask.isFinish, Mask.isStart, known, RUN, SSUSP, USUSP, PEND, PSUSP, EXIT,
      DONE]
  | running =>
    obtain ⟨w, u, rfl⟩ := hm
    constructor <;> simp [Mask.isPend, Mask.isFinish, Mask.isStart, known, RUN, SSUSP, USUSP, PEND, PSUSP, EXIT,
      DONE]
  | ssusp | ususp =>
    obtain ⟨u, rfl⟩ := hm
    constructor <;> simp [Mask.isPend, Mask.isFinish, Mask.isStart, known, RUN, SSUSP, USUSP, PEND, PSUSP, EXIT,
      DONE]
  | finished =>
    obtain ⟨e, d, r, u, rfl⟩ := hm
    constructor <;> simp [Mask.isPend, Mask.isFinish, Mask.isStart, isPostFinish, known, RUN, SSUSP, USUSP,
      PEND, PSUSP, EXIT, DONE]
    cases e <;> simp

theorem phase_unkwn (m : Mask) (b : Bool) : phase { m with unkwn := b } = m.phase := rfl

theorem phase_post (h : m.phase = some .finished) (pdone perr : Bool) : phase { m with pdone, perr } = some .finished := by
  obtain ⟨e, d, r, u, rfl⟩ := phase_form h
  cases e <;> rfl

end

end Mask

end OpenLava

import OpenLava.Log.Switch

/-!
# What a restart reads

The records in `lsb.events` after any appends and switches, against a list that is only appended to and filtered.
-/

namespace OpenLava.Log

open List Text

variable {F : Type} {ft : FloatText F} {positive : List Char → Bool} {r : EventRec F} {l rs : List (EventRec F)}
  {fp head : List Char} {d : LogDir F} {log : Option (List (EventRec F))}

/-- The record is a line, which is read as the same record. -/
def EventRec.Settled (ft : FloatText F) (positive : List Char → Bool) (r : EventRec F) : Prop :=
  r.Clean ∧ readEventLine ft positive (line ft (r.written.pieces.map .seen)) = .ok r

def LogOp.records : LogOp F → List (EventRec F)
  | .append r => [r]
  | .switch _ _ controls => controls

/-- The abstract log; there is none before the first record. -/
def LogOp.remember (l : Option (List (EventRec F))) : LogOp F → Option (List (EventRec F))
  | .append r => some (l.getD [] ++ [r])
  | .switch _ preserve controls => l.map fun l => l.filter preserve ++ controls

structure Stores (ft : FloatText F) (positive : List Char → Bool) (fp : List Char) (l : List (EventRec F)) : Prop where
  text : ∃ head, '\n' ∉ head ∧ fp = '#' :: (head ++ '\n' :: l.flatMap (lsb_puteventrec ft))
  settled : ∀ r ∈ l, r.Settled ft positive

theorem head_trimmed (head : List Char) : (trimmed ('#' :: head)).head? = some '#' := by
  have hp : trimmed ('#' :: head) <+: '#' :: head.map blanked := rdropWhile_prefix ..
  have hne : trimmed ('#' :: head) ≠ [] := fun h => absurd (rdropWhile_eq_nil_iff.mp h '#' mem_cons_self) (by decide)
  obtain ⟨c, line, hc⟩ := exists_cons_of_ne_nil hne
  rw [hc, cons_prefix_cons] at hp
  rw [hc, head?_cons, hp.1]

theorem nextEventLine_head (hn : '\n' ∉ head) (body : List Char) (lines : Nat) :
    nextEventLine (lines + 1) ('#' :: (head ++ '\n' :: body)) = nextEventLine lines body := by
  have hne : trimmed ('#' :: head) ≠ [] := fun h => by simpa [h] using head_trimmed head
  have hnext : getNextLine ('#' :: (head ++ '\n' :: body)) = (some (trimmed ('#' :: head)), body) :=
    getNextLine_line (by simpa using hn) hne body
  rw [nextEventLine, hnext]
  exact if_pos (head_trimmed head)

theorem length_le_put (hl : ∀ r ∈ l, r.Settled ft positive) : l.length ≤ (l.flatMap (lsb_puteventrec ft)).length := by
  induction l with
  | nil => exact le_rfl
  | cons r l ih =>
    obtain ⟨⟨hc, -⟩, hl⟩ := forall_mem_cons.mp hl
    obtain ⟨blanks, -, hput⟩ := put_eq ft hc.ends
    have := ih hl
    simp only [flatMap_cons, hput, length_append, length_cons]
    omega

theorem readEvents_put {lines : Nat} (hl : ∀ r ∈ l, r.Settled ft positive) (hn : l.length < lines) :
    readEvents ft positive lines (l.flatMap (lsb_puteventrec ft)) = l := by
  obtain ⟨lines, rfl⟩ := Nat.exists_eq_succ_of_ne_zero (Nat.ne_zero_of_lt hn)
  induction l generalizing lines with
  | nil => rfl
  | cons r l ih =>
    obtain ⟨⟨hc, hr⟩, hl⟩ := forall_mem_cons.mp hl
    obtain ⟨lines, rfl⟩ := Nat.exists_eq_succ_of_ne_zero (show lines ≠ 0 by rintro rfl; simp at hn)
    rw [flatMap_cons, readEvents, lsb_geteventrec_put hc, hr]
    exact congrArg (r :: ·) (ih hl lines (by simpa using hn))

/-- The reader skips the header and finds the records. -/
theorem Stores.read (h : Stores ft positive fp l) : readEvents ft positive (fp.length + 1) fp = l := by
  obtain ⟨⟨head, hn, rfl⟩, hl⟩ := h
  rw [readEvents, lsb_geteventrec, nextEventLine_head hn, length_cons]
  cases l with
  | nil => rfl
  | cons r l =>
    obtain ⟨⟨hc, hr⟩, hl⟩ := forall_mem_cons.mp hl
    have hle := length_le_put hl
    rw [flatMap_cons, nextEventLine_put hc]
    dsimp only
    rw [hr]
    exact congrArg (r :: ·) (readEvents_put hl (by simp only [length_append, length_cons]; omega))

theorem newline_not_mem_header (pos : Int) (n : Nat) : '\n' ∉ decimal pos ++ replicate n ' ' := fun hm => by
  rcases mem_append.mp hm with hm | hm
  · exact not_newline_of_plain (decimal_plain _) hm
  · exact absurd (eq_of_mem_replicate hm) (by decide)

theorem Stores.compacted (h : Stores ft positive fp l) (preserve : EventRec F → Bool)
    (hs : (compacted ft positive preserve fp).length < 2 ^ 31) :
    Stores ft positive (OpenLava.Log.compacted ft positive preserve fp) (l.filter preserve) := by
  refine ⟨?_, fun r hr => h.settled r (mem_of_mem_filter hr)⟩
  unfold OpenLava.Log.compacted at hs ⊢
  rw [h.read] at hs ⊢
  generalize (l.filter preserve).flatMap (lsb_puteventrec ft) = kept at hs ⊢
  have ht : ('#' :: (replicate 37 ' ' ++ '\n' :: kept)).length = kept.length + 39 := by simp
  simp only [ht, length_append, length_cons, length_drop] at hs ⊢
  have hd : (decimal ((kept.length + 39 : Nat) : Int)).length ≤ 10 := length_decimal_le (by omega)
  -- the position takes the place of some of the blanks
  refine ⟨_, newline_not_mem_header (kept.length + 39 : Nat) (37 - (decimal (kept.length + 39 : Nat)).length), ?_⟩
  rw [drop_succ_cons, drop_append_of_le_length (by rw [length_replicate]; omega), drop_replicate, cons_append,
    append_assoc]

theorem stores_putEventRec (h : Option.Rel (Stores ft positive) d.events log) (hr : r.Settled ft positive) :
    Option.Rel (Stores ft positive) (putEventRec ft r d).events (some (log.getD [] ++ [r])) := by
  have hopen : Stores ft positive (openEventFile d.events) (log.getD []) := by
    generalize d.events = events at h
    cases h with
    | none =>
      refine ⟨⟨decimal 80 ++ replicate 76 ' ', newline_not_mem_header 80 76, ?_⟩, forall_mem_nil _⟩
      exact congrArg _ (append_assoc ..).symm
    | @some fp l h =>
      obtain ⟨head, -, hfp⟩ := h.text
      have ho : openEventFile (some fp) = fp := if_neg (by simp [hfp])
      rw [ho]
      exact h
  obtain ⟨⟨head, hn, hfp⟩, hl⟩ := hopen
  refine .some ⟨⟨head, hn, by rw [hfp]; simp⟩, fun x hx => ?_⟩
  rcases mem_append.mp hx with hx | hx
  · exact hl x hx
  · exact mem_singleton.mp hx ▸ hr

theorem stores_putEventRecs (hr : ∀ r ∈ rs, r.Settled ft positive)
    (h : Option.Rel (Stores ft positive) d.events (some l)) : Option.Rel (Stores ft positive)
      (rs.foldl (fun d r => putEventRec ft r d) d).events (some (l ++ rs)) := by
  induction rs generalizing d l with
  | nil => simpa using h
  | cons r rs ih =>
    obtain ⟨hr, hrs⟩ := forall_mem_cons.mp hr
    simpa using ih hrs (stores_putEventRec h hr)

/-- The file stays below 2 GiB, and what is written can be read. -/
def LogOp.Fits (ft : FloatText F) (positive : List Char → Bool) (op : LogOp F) (d : LogDir F) : Prop :=
  (op.step ft positive d).Small ∧ ∀ r ∈ op.records, r.Settled ft positive

theorem stores_step (hd : LogInv ft d) (h : Option.Rel (Stores ft positive) d.events log) (op : LogOp F)
    (hf : op.Fits ft positive d) : Option.Rel (Stores ft positive) (op.step ft positive d).events (op.remember log) := by
  obtain ⟨hs, hr⟩ := hf
  cases op with
  | append r => exact stores_putEventRec h (hr r mem_cons_self)
  | switch now preserve controls =>
    cases hfp : d.events with
    | none =>
      rw [hfp] at h
      cases h
      simpa only [LogOp.step, switch_log, hfp] using .none
    | some fp =>
      obtain ⟨pos, hpos⟩ := hd.headed fp hfp
      obtain ⟨event0, he0, -⟩ := @createEvent0File_eq now fp pos hpos (hd.small fp hfp)
      rw [hfp] at h
      cases h with
      | some h =>
        simp only [LogOp.step, switch_log, hfp, he0] at hs ⊢
        obtain ⟨fp', hfp', hle⟩ := length_le_putEventRecs ft controls
          (d := { d with events := some (compacted ft positive preserve fp) }) rfl (by simp [compacted])
        exact stores_putEventRecs hr (.some (h.compacted preserve (hle.trans_lt (hs fp' hfp'))))

theorem stores_run (ops : List (LogOp F)) (hd : LogInv ft d) (h : Option.Rel (Stores ft positive) d.events log)
    (hf : Run.Meets (LogOp.step ft positive) (LogOp.Fits ft positive) ops d) : Option.Rel (Stores ft positive)
      (Run.run (LogOp.step ft positive) ops d).events (ops.foldl LogOp.remember log) := by
  induction ops generalizing d log with
  | nil => exact h
  | cons op ops ih => exact ih (step_keeps ft positive op d hd hf.1.1) (stores_step hd h op hf.1) hf.2

/-- Over every run: `lsb.events` is read as the records written, less those dropped at the switches. -/
theorem log_remembered (ops : List (LogOp F))
    (hf : Run.Meets (LogOp.step ft positive) (LogOp.Fits ft positive) ops LogDir.empty) :
    (Run.run (LogOp.step ft positive) ops LogDir.empty).events.map
      (fun fp => readEvents ft positive (fp.length + 1) fp) = ops.foldl LogOp.remember none := by
  have h := stores_run ops (logInv_empty ft) .none hf
  generalize (Run.run (LogOp.step ft positive) ops LogDir.empty).events = events at h ⊢
  generalize ops.foldl LogOp.remember none = l at h ⊢
  cases h with
  | none => rfl
  | some h => exact congrArg some h.read

/-- One of two records is dropped at the switch. -/
theorem log_remembered_smallRun : let read := fun version : List Char => decide (version ≠ [])
    (Run.run (LogOp.step .whole read) smallRun LogDir.empty).events.map
      (fun fp => readEvents .whole read (fp.length + 1) fp) = some [cleaned 102, cleaned 103, cleaned 104] := by
  intro read
  have hset : ∀ jobId ∈ [101, 102, 103, 104], (cleaned jobId).Settled .whole read := by
    intro jobId hj
    refine ⟨cleaned_clean jobId, ?_⟩
    fin_cases hj <;> rfl
  refine (log_remembered smallRun ?_).trans rfl
  simp only [smallRun, Run.Meets, LogOp.Fits, LogOp.records, forall_mem_singleton, and_true]
  exact ⟨⟨by decide +kernel, hset _ (by simp)⟩, ⟨by decide +kernel, hset _ (by simp)⟩,
    ⟨by decide +kernel, hset _ (by simp)⟩, ⟨by decide +kernel, hset _ (by simp)⟩⟩

end OpenLava.Log

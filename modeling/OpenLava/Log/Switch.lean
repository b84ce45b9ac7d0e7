import Mathlib.Data.Nat.Digits.Defs
import OpenLava.Log.Index
import OpenLava.Run

/-!
The event log of mbatchd on disk. Records are appended to `lsb.events`. `switch_log` archives the records that have
been appended since the last switch as `lsb.events.1`, and starts a new `lsb.events` with those records that are still
needed; the header of the file says where they end.
-/

namespace OpenLava.Log

open List Text

variable {F : Type}

/-- `lsb.events` and the archived files, newest first; `appended` is every record so far. -/
structure LogDir (F : Type) where
  events : Option (List Char)
  archived : List (List Char)
  appended : List (EventRec F)

def LogDir.empty : LogDir F := ⟨none, [], []⟩

def eventHeader : List Char := '#' :: (decimal 80 ++ (replicate 76 ' ' ++ ['\n']))

def openEventFile (events : Option (List Char)) : List Char :=
  if events.getD [] = [] then eventHeader else events.getD []

def putEventRec (ft : FloatText F) (r : EventRec F) (d : LogDir F) : LogDir F :=
  { d with events := some (openEventFile d.events ++ lsb_puteventrec ft r), appended := d.appended ++ [r] }

def headerPos (fp : List Char) : Int := if fp.head? = some '#' then scannedInt (fp.drop 1) else 0

/-- The size is an `int`; the copy ends after `size` characters or at the end. -/
def createEvent0File (now : Int) (fp : List Char) : Option (List Char) :=
  let pos := headerPos fp
  let size := toInt (toInt fp.length - pos)
  if pos < 0 then none
  else some ('#' :: (decimal now ++ (replicate 23 ' ' ++ '\n' :: (fp.drop pos.toNat).take size.toNat)))

def readEvents (ft : FloatText F) (positive : List Char → Bool) : Nat → List Char → List (EventRec F)
  | 0, _ => []
  | lines + 1, fp =>
    match lsb_geteventrec ft positive fp with
    | (.error .eof, _) => []
    | (.error _, fp) => readEvents ft positive lines fp
    | (.ok r, fp) => r :: readEvents ft positive lines fp

/-- `lsb.events.tmp`: a header, which gets the position at their end, and the records preserved. -/
def compacted (ft : FloatText F) (positive : List Char → Bool) (preserve : EventRec F → Bool) (fp : List Char) :
    List Char :=
  let kept := ((readEvents ft positive (fp.length + 1) fp).filter preserve).flatMap (lsb_puteventrec ft)
  let tmp := '#' :: (replicate 37 ' ' ++ '\n' :: kept)
  let header := '#' :: decimal tmp.length
  header ++ tmp.drop header.length

/-- Every archived file goes one number up, and `lsb.events.0` becomes the first. -/
def renameElogFiles (event0 : List Char) (archived : List (List Char)) : List (List Char) := event0 :: archived

/-- `preserve` is what memory makes of a record; `controls` are appended. -/
def switch_log (ft : FloatText F) (positive : List Char → Bool) (now : Int) (preserve : EventRec F → Bool)
    (controls : List (EventRec F)) (d : LogDir F) : LogDir F :=
  match d.events with
  | none => d
  | some fp =>
    match createEvent0File now fp with
    | none => d
    | some event0 =>
      let d' := controls.foldl (fun d r => putEventRec ft r d)
        { d with events := some (compacted ft positive preserve fp) }
      { d' with archived := renameElogFiles event0 d'.archived }

inductive LogOp (F : Type) where
  | append (r : EventRec F)
  | switch (now : Int) (preserve : EventRec F → Bool) (controls : List (EventRec F))

def LogOp.step (ft : FloatText F) (positive : List Char → Bool) : LogOp F → LogDir F → LogDir F
  | .append r, d => putEventRec ft r d
  | .switch now preserve controls, d => switch_log ft positive now preserve controls d

def bodyOf (file : List Char) : List Char := (file.dropWhile (· ≠ '\n')).drop 1

/-- The part of `lsb.events` behind its offset. -/
def LogDir.recent (d : LogDir F) : List Char := d.events.elim [] fun fp => fp.drop (headerPos fp).toNat

def LogDir.Complete (ft : FloatText F) (d : LogDir F) : Prop :=
  d.archived.reverse.flatMap bodyOf ++ d.recent = d.appended.flatMap (lsb_puteventrec ft)

/-- `lsb.events` is below 2 GiB. -/
def LogDir.Small (d : LogDir F) : Prop := ∀ fp ∈ d.events, fp.length < 2 ^ 31

structure Headed (fp : List Char) (pos : Nat) : Prop where
  header : ∃ rest, fp = '#' :: (decimal pos ++ ' ' :: rest)
  pos_le : pos ≤ fp.length

theorem Headed.headerPos_eq (h : Headed fp pos) : headerPos fp = pos := by
  obtain ⟨rest, rfl⟩ := h.header
  have hs : Stops (' ' :: rest) := by simp [Stops]
  simp [headerPos, scannedInt, scanInt_decimal _ hs]

theorem Headed.append {fp : List Char} {pos : Nat} (h : Headed fp pos) (text : List Char) : Headed (fp ++ text) pos := by
  obtain ⟨rest, rfl⟩ := h.header
  exact ⟨⟨rest ++ text, by simp⟩, h.pos_le.trans (by simp)⟩

theorem headed_eventHeader : Headed eventHeader 80 :=
  ⟨⟨replicate 75 ' ' ++ ['\n'], rfl⟩, by decide⟩

structure LogInv (ft : FloatText F) (d : LogDir F) : Prop where
  complete : d.Complete ft
  small : d.Small
  headed : ∀ fp ∈ d.events, ∃ pos, Headed fp pos

theorem recent_eq {d : LogDir F} {fp : List Char} {pos : Nat} (hfp : d.events = some fp) (h : Headed fp pos) :
    d.recent = fp.drop pos := by
  simp [LogDir.recent, hfp, h.headerPos_eq]

theorem openEventFile_headed {d : LogDir F} (h : ∀ fp ∈ d.events, ∃ pos, Headed fp pos) :
    ∃ pos, Headed (openEventFile d.events) pos ∧ (openEventFile d.events).drop pos = d.recent := by
  cases hfp : d.events with
  | none => exact ⟨80, headed_eventHeader, by simp [LogDir.recent, hfp]; rfl⟩
  | some fp =>
    obtain ⟨pos, hpos⟩ := h fp hfp
    have hne : fp ≠ [] := by
      obtain ⟨rest, rfl⟩ := hpos.header
      simp
    exact ⟨pos, by simpa [openEventFile, hne] using hpos, by simp [openEventFile, hne, recent_eq hfp hpos]⟩

theorem putEventRec_complete {ft : FloatText F} {d : LogDir F} (hc : d.Complete ft)
    (hh : ∀ fp ∈ d.events, ∃ pos, Headed fp pos) (r : EventRec F) :
    (putEventRec ft r d).Complete ft ∧ ∀ fp ∈ (putEventRec ft r d).events, ∃ pos, Headed fp pos := by
  obtain ⟨pos, hpos, hd⟩ := openEventFile_headed hh
  have hn : Headed (openEventFile d.events ++ lsb_puteventrec ft r) pos := hpos.append _
  refine ⟨?_, fun fp hfp => ⟨pos, Option.some.inj hfp ▸ hn⟩⟩
  have hr : (putEventRec ft r d).recent = d.recent ++ lsb_puteventrec ft r := by
    rw [recent_eq rfl hn, drop_append_of_le_length hpos.pos_le, hd]
  rw [LogDir.Complete, hr, ← append_assoc]
  simp only [putEventRec, flatMap_append, flatMap_cons, flatMap_nil, append_nil]
  rw [hc]

theorem length_decimal_le {n : Nat} (h : n < 2 ^ 31) : (decimal n).length ≤ 10 := by
  have hd : decimal n = Nat.toDigits 10 n := by simp [decimal]
  rw [hd]
  exact Nat.toDigits_length 10 n 10 (by decide) (by omega)

/-- The position fits the header left for it, so it is the end of what is preserved. -/
theorem compacted_headed (ft : FloatText F) (positive : List Char → Bool) (preserve : EventRec F → Bool) (fp : List Char)
    (h : (compacted ft positive preserve fp).length < 2 ^ 31) :
    Headed (compacted ft positive preserve fp) (compacted ft positive preserve fp).length := by
  generalize hkept : ((readEvents ft positive (fp.length + 1) fp).filter preserve).flatMap (lsb_puteventrec ft) = kept
  have ht : ('#' :: (replicate 37 ' ' ++ '\n' :: kept)).length = kept.length + 39 := by simp
  simp only [compacted, hkept, ht, length_append, length_cons, length_drop] at h ⊢
  have hd : (decimal ((kept.length + 39 : Nat) : Int)).length ≤ 10 := length_decimal_le (by omega)
  generalize hn : (decimal ((kept.length + 39 : Nat) : Int)).length = n at h hd ⊢
  have hl : n + 1 + (kept.length + 39 - (n + 1)) = kept.length + 39 := by omega
  rw [hl]
  refine ⟨⟨replicate (36 - n) ' ' ++ '\n' :: kept, ?_⟩, ?_⟩
  swap
  · simp only [length_append, length_cons, length_drop, hn, ht]
    omega
  rw [drop_succ_cons, drop_append_of_le_length (by simp; omega), drop_replicate,
    show 37 - n = (36 - n) + 1 by omega, replicate_succ]
  simp

theorem createEvent0File_eq {now : Int} {fp : List Char} {pos : Nat} (h : Headed fp pos) (hs : fp.length < 2 ^ 31) :
    ∃ event0, createEvent0File now fp = some event0 ∧ bodyOf event0 = fp.drop pos := by
  have hs : toInt (toInt fp.length - pos) = fp.length - pos := by
    have := h.pos_le
    rw [toInt_eq_self.mpr (show -2 ^ 31 ≤ (fp.length : Int) ∧ (fp.length : Int) < 2 ^ 31 by omega)]
    exact toInt_eq_self.mpr (by omega)
  refine ⟨_, by simp only [createEvent0File, h.headerPos_eq, hs]; exact if_neg (by omega), ?_⟩
  have hl : ∀ c ∈ '#' :: (decimal now ++ replicate 23 ' '), decide (c ≠ '\n') = true := by
    intro c hc
    rcases mem_cons.mp hc with rfl | hc
    · decide
    rcases mem_append.mp hc with hc | hc
    · exact decide_eq_true fun hn => not_newline_of_plain (decimal_plain now) (hn ▸ hc)
    · rw [eq_of_mem_replicate hc]
      decide
  have hs : ∀ body : List Char, '#' :: (decimal now ++ (replicate 23 ' ' ++ '\n' :: body)) =
      '#' :: (decimal now ++ replicate 23 ' ') ++ '\n' :: body := by simp
  rw [hs, bodyOf, dropWhile_append_of_pos hl, dropWhile_cons_of_neg (by decide)]
  have ht : ((fp.length : Int) - pos).toNat = (fp.drop pos).length := by
    rw [length_drop]
    omega
  rw [ht, drop_succ_cons, drop_zero, Int.toNat_natCast, take_length]

theorem putEventRecs_complete {ft : FloatText F} (controls : List (EventRec F)) {d : LogDir F} (hc : d.Complete ft)
    (hh : ∀ fp ∈ d.events, ∃ pos, Headed fp pos) : (controls.foldl (fun d r => putEventRec ft r d) d).Complete ft ∧
      ∀ fp ∈ (controls.foldl (fun d r => putEventRec ft r d) d).events, ∃ pos, Headed fp pos := by
  induction controls generalizing d with
  | nil => exact ⟨hc, hh⟩
  | cons r controls ih =>
    obtain ⟨hc, hh⟩ := putEventRec_complete hc hh r
    exact ih hc hh

theorem putEventRecs_archived (ft : FloatText F) (controls : List (EventRec F)) (d : LogDir F)
    (archived : List (List Char)) : controls.foldl (fun d r => putEventRec ft r d) { d with archived } =
      { controls.foldl (fun d r => putEventRec ft r d) d with archived } := by
  induction controls generalizing d with
  | nil => rfl
  | cons r controls ih => exact ih (putEventRec ft r d)

theorem length_le_putEventRecs (ft : FloatText F) (controls : List (EventRec F)) {d : LogDir F} {fp : List Char}
    (hfp : d.events = some fp) (hne : fp ≠ []) :
    ∃ fp', (controls.foldl (fun d r => putEventRec ft r d) d).events = some fp' ∧ fp.length ≤ fp'.length := by
  induction controls generalizing d fp with
  | nil => exact ⟨fp, hfp, le_rfl⟩
  | cons r controls ih =>
    have ho : openEventFile d.events = fp := by simp [openEventFile, hfp, hne]
    obtain ⟨fp', hfp', hle⟩ := @ih (putEventRec ft r d) (fp ++ lsb_puteventrec ft r) (by rw [putEventRec, ho])
      (by simp [hne])
    exact ⟨fp', hfp', le_trans (by simp) hle⟩

theorem step_keeps (ft : FloatText F) (positive : List Char → Bool) (op : LogOp F) (d : LogDir F) (h : LogInv ft d)
    (hs : (op.step ft positive d).Small) : LogInv ft (op.step ft positive d) := by
  cases op with
  | append r =>
    obtain ⟨hc, hh⟩ := putEventRec_complete h.complete h.headed r
    exact ⟨hc, hs, hh⟩
  | switch now preserve controls =>
    cases hfp : d.events with
    | none => simpa only [LogOp.step, switch_log, hfp] using h
    | some fp =>
      obtain ⟨pos, hpos⟩ := h.headed fp hfp
      obtain ⟨event0, he0, hb⟩ := @createEvent0File_eq now fp pos hpos (h.small fp hfp)
      simp only [LogOp.step, switch_log, hfp, he0] at hs ⊢
      generalize hn : compacted ft positive preserve fp = tmp at hs ⊢
      have hne : tmp ≠ [] := by simp [← hn, compacted]
      obtain ⟨fp', hfp', hle⟩ := length_le_putEventRecs ft controls (d := { d with events := some tmp }) rfl hne
      have ht : Headed tmp tmp.length := by
        have hlt := hle.trans_lt (hs fp' hfp')
        rw [← hn] at hlt ⊢
        exact compacted_headed ft positive preserve fp hlt
      -- the recent part is now in the newest archive, and the new file has none
      have hmov : LogDir.Complete ft { d with events := some tmp, archived := event0 :: d.archived } := by
        have hr : LogDir.recent { d with events := some tmp, archived := event0 :: d.archived } = [] := by
          rw [recent_eq rfl ht, drop_length]
        have hc := h.complete
        rw [LogDir.Complete, recent_eq hfp hpos] at hc
        simpa [LogDir.Complete, hr, hb] using hc
      have ha := congrArg LogDir.archived (putEventRecs_archived ft controls { d with events := some tmp } d.archived)
      have hd := putEventRecs_archived ft controls { d with events := some tmp } (event0 :: d.archived)
      simp only [renameElogFiles] at hs ⊢
      rw [ha, ← hd] at hs ⊢
      obtain ⟨hc, hh⟩ := putEventRecs_complete controls hmov
        (by rintro fp'' ⟨⟩; exact ⟨_, ht⟩)
      exact ⟨hc, hs, hh⟩

theorem logInv_empty (ft : FloatText F) : LogInv ft (LogDir.empty : LogDir F) where
  complete := rfl
  small := nofun
  headed := nofun

/-- While `lsb.events` stays below 2 GiB, no record is lost, doubled or moved. -/
theorem log_complete (ft : FloatText F) (positive : List Char → Bool) (ops : List (LogOp F))
    (h : Run.Meets (LogOp.step ft positive) (fun op d => (op.step ft positive d).Small) ops LogDir.empty) :
    (Run.run (LogOp.step ft positive) ops LogDir.empty).Complete ft :=
  (Run.run_invariant (step_keeps ft positive) ops LogDir.empty (logInv_empty ft) h).complete

instance (d : LogDir F) : Decidable d.Small :=
  match h : d.events with
  | none => .isTrue (by simp [LogDir.Small, h])
  | some fp => decidable_of_iff (fp.length < 2 ^ 31) (by simp [LogDir.Small, h])

def smallRun : List (LogOp Int) :=
  [.append (cleaned 101), .append (cleaned 102), .switch 1400000001 (fun r => payloadJob r.type r.eventLog = some 102)
    [cleaned 103], .append (cleaned 104)]

theorem log_complete_smallRun :
    (Run.run (LogOp.step .whole fun version => version ≠ []) smallRun LogDir.empty).Complete .whole :=
  log_complete .whole _ smallRun (by decide +kernel)

theorem run_appends (ft : FloatText F) (positive : List Char → Bool) (r : EventRec F) (n : Nat) {fp : List Char}
    (hne : fp ≠ []) (archived : List (List Char)) (appended : List (EventRec F)) (ops : List (LogOp F)) :
    Run.run (LogOp.step ft positive) (replicate n (.append r) ++ ops) ⟨some fp, archived, appended⟩ =
      Run.run (LogOp.step ft positive) ops ⟨some (fp ++ (replicate n (lsb_puteventrec ft r)).flatten), archived,
        appended ++ replicate n r⟩ := by
  induction n generalizing fp appended with
  | zero => simp
  | succ n ih =>
    have hs : LogOp.step ft positive (.append r) ⟨some fp, archived, appended⟩ =
        ⟨some (fp ++ lsb_puteventrec ft r), archived, appended ++ [r]⟩ := by
      simp [LogOp.step, putEventRec, openEventFile, hne]
    rw [replicate_succ, cons_append, Run.run, hs, ih (by simp [hne])]
    simp [replicate_succ]

/-- Between 2 and 4 GiB the size is a negative `int`, and nothing is archived. -/
theorem createEvent0File_large {now : Int} {fp : List Char} {pos : Nat} (h : Headed fp pos)
    (hl : 2 ^ 31 + pos ≤ fp.length) (hh : fp.length < 2 ^ 32) :
    createEvent0File now fp = some ('#' :: (decimal now ++ (replicate 23 ' ' ++ ['\n']))) := by
  have hl : toInt fp.length = fp.length - 2 ^ 32 := by
    unfold toInt
    rw [Int.bmod_def]
    split <;> omega
  have hs : toInt (fp.length - 2 ^ 32 - pos) = fp.length - 2 ^ 32 - pos := toInt_eq_self.mpr (by omega)
  have hn : ((fp.length : Int) - 2 ^ 32 - pos).toNat = 0 := by omega
  simp only [createEvent0File, h.headerPos_eq, hl, hs, hn, take_zero]
  exact if_neg (by omega)

def repeatRun (n : Nat) : List (LogOp Int) :=
  .append (cleaned 101) :: (replicate n (.append (cleaned 101)) ++ [.switch 1400000001 (fun _ => false) []])

theorem not_complete_of_large {n : Nat} (hl : 2 ^ 31 ≤ 34 * n) (hh : 114 + 34 * n < 2 ^ 32) :
    ¬ (Run.run (LogOp.step .whole fun version => version ≠ []) (repeatRun n) LogDir.empty).Complete .whole := by
  have hput : (lsb_puteventrec .whole (cleaned 101)).length = 34 := by decide +kernel
  have hput' : lsb_puteventrec .whole (cleaned 101) ≠ [] := fun h => by simp [h] at hput
  have hf : LogOp.step .whole (fun version => version ≠ []) (.append (cleaned 101)) LogDir.empty =
      ⟨some (eventHeader ++ lsb_puteventrec .whole (cleaned 101)), [], [cleaned 101]⟩ := rfl
  have hne : eventHeader ++ lsb_puteventrec .whole (cleaned 101) ≠ [] := by simp [eventHeader]
  rw [repeatRun, Run.run, hf, run_appends _ _ _ _ hne]
  generalize lsb_puteventrec .whole (cleaned 101) = text at hput ⊢
  generalize hfp : eventHeader ++ text ++ (replicate n text).flatten = fp
  have hh : Headed fp 80 := hfp ▸ (headed_eventHeader.append _).append _
  have hl : fp.length = 114 + 34 * n := by
    rw [← hfp, length_append, length_append, hput, length_flatten, map_replicate,
      sum_replicate, hput, show eventHeader.length = 80 by decide, smul_eq_mul]
    omega
  have he0 := @createEvent0File_large 1400000001 fp 80 hh (by omega) (by omega)
  have hr : LogDir.recent (⟨some (compacted .whole (fun version => version ≠ []) (fun _ => false) fp), [], []⟩ :
      LogDir Int) = [] := by
    simp only [compacted, filter_false]
    decide
  intro hc
  simp only [Run.run, LogOp.step, switch_log, he0, foldl_nil, LogDir.Complete] at hc
  -- nothing is archived and nothing is recent
  have hb : bodyOf ('#' :: (decimal 1400000001 ++ (replicate 23 ' ' ++ ['\n']))) = [] := by decide
  exact hput' (append_eq_nil_iff.mp (hc.symm.trans hr)).1

/-- 2 ^ 26 records of 34 characters are more than 2 GiB. -/
theorem log_lost :
    ¬ (Run.run (LogOp.step .whole fun version => version ≠ []) (repeatRun (2 ^ 26)) LogDir.empty).Complete .whole :=
  not_complete_of_large (by norm_num) (by norm_num)

end OpenLava.Log

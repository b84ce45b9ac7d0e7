import OpenLava.Res.Stdout

/-!
The end of the output of a task. Each of its two channels has an end, and `declare_eof_condition` sends a frame for
both, whatever the other channel still has.
-/

namespace OpenLava.Res.Eof

open List Function

structure EndMode where
  linebuf : Bool := true
  quiet : Bool := false -- `sbdMode` without `SBD_FLAG_TERM`.
  server : Bool := false

/-- A task with separate channels, and the frames for it in their order. -/
structure Ending where
  chld : Task
  nios : Nios
  fd : Which → Bool := fun _ => true -- Whether the descriptors of the channels are valid.
  refcnt : Int
  info : Bool
  sigchild : Option Bool := none -- `sigchild`, with whether the task has only stopped.
  deleted : Bool := false
  frames : List ResNiosCmd := []

def unlink_child (s : Ending) : Ending :=
  { s with
    refcnt := s.refcnt - 1
    deleted := s.refcnt - 1 ≤ 0 ∧ s.chld.std_out.buffer = [] ∧ s.chld.std_err.buffer = [] }

def notify_sigchild (mode : EndMode) (stopped : Bool) (s : Ending) : Ending :=
  let s := { s with sigchild := none, frames := if mode.quiet then s.frames else s.frames ++ [.RES2NIOS_STATUS] }
  if stopped then s else unlink_child s

def declare_eof_condition (mode : EndMode) (w : Which) (s : Ending) : Ending :=
  unlink_child { s with
    frames := if mode.quiet then s.frames else s.frames ++ [.RES2NIOS_EOF]
    fd := update s.fd w false }

/-- What `dochild_buffer` does first where the buffer is empty. -/
def signalled (mode : EndMode) (s : Ending) : Ending :=
  match s.sigchild with
  | some stopped => if mode.server then s else notify_sigchild mode stopped s
  | none => s

/-- The cases `DOWRITE` and `DOSTDERR`. -/
def dochild_buffer (mode : EndMode) (w : Which) (s : Ending) : Ending :=
  if s.nios.wbuf ≠ [] then s
  else if (s.chld.channel w).buffer = [] then
    let s := signalled mode s
    if s.deleted = false ∧ (s.chld.channel w).endFlag then
      declare_eof_condition mode w { s with chld := s.chld.setChannel { s.chld.channel w with endFlag := false } w }
    else s
  else
    let (chld, nios) := dochild_output mode.linebuf w s.chld s.nios
    { s with chld := chld, nios := nios, frames := if nios.wbuf = [] then s.frames else s.frames ++ [w.opCode] }

/-- The turn of the task in `houseKeeping`. -/
def endTurn (mode : EndMode) (s : Ending) : Ending :=
  let signal := s.sigchild.isSome && !mode.server
  if s.chld.std_out.buffer ≠ [] ∨ signal ∨ s.chld.std_out.endFlag then dochild_buffer mode .out s
  else if s.chld.std_err.buffer ≠ [] ∨ s.chld.std_err.endFlag then dochild_buffer mode .err s
  else s

inductive EndOp where
  | print (w : Which) (data : Header.Bytes)
  | clear (w : Which) (r : PipeRead) (final : Option PipeRead)
  | keep
  | other (data : Header.Bytes) -- The output of another task is moved into the write buffer.
  | write (n : Nat)
  | exits (stopped : Bool)
  | closeInfo -- `dochild_info` finds that the task has closed `info`.

def endStep (mode : EndMode) (s : Ending) (op : EndOp) : Ending :=
  if s.deleted then s
  else
    match op with
    | .print w data =>
      { s with chld := s.chld.setChannel { s.chld.channel w with pipe := (s.chld.channel w).pipe ++ data } w }
    | .clear w r final =>
      if s.fd w then
        let c := child_channel_clear r final (s.chld.channel w)
        { s with chld := s.chld.setChannel c w, fd := if c.endFlag then update s.fd w false else s.fd }
      else s
    | .keep => if s.nios.wbuf = [] ∧ s.nios.unsent = [] then endTurn mode s else s
    | .other data => if s.nios.wbuf = [] then { s with nios := { s.nios with wbuf := data } } else s
    | .write n => { s with nios := donios_write n s.nios }
    | .exits stopped => { s with sigchild := some stopped }
    | .closeInfo => if s.info then unlink_child { s with info := false } else s

def newChannel : OutputChannel := ⟨[], false, false, [], []⟩

/-- A task with a channel for errors has a reference more. -/
def newTask (info : Bool) (rpid : Nat) : Ending where
  chld := ⟨rpid, newChannel, newChannel⟩
  nios := ⟨[], [], 0, .RES2NIOS_CONNECT, [], []⟩
  refcnt := if info then 4 else 3
  info := info

/-- The other channel was never read; only the status follows an end-of-file frame. -/
structure OneEnd (w : Which) (s : Ending) : Prop where
  idle : ∀ w', w' ≠ w → (s.chld.channel w').buffer = [] ∧ (s.chld.channel w').endFlag = false
  frames : .RES2NIOS_EOF ∉ s.frames ∨
    (s.fd w = false ∧ (s.chld.channel w).buffer = [] ∧ (s.chld.channel w).endFlag = false ∧
      ∃ l l', s.frames = l ++ .RES2NIOS_EOF :: l' ∧ .RES2NIOS_EOF ∉ l ∧ ∀ f ∈ l', f = .RES2NIOS_STATUS)

variable {s s' : Ending}

theorem OneEnd.congr (h : OneEnd w s) (hb : ∀ w, (s'.chld.channel w).buffer = (s.chld.channel w).buffer)
    (hf : ∀ w, (s'.chld.channel w).endFlag = (s.chld.channel w).endFlag) (hfd : s'.fd = s.fd)
    (hfra : s'.frames = s.frames) : OneEnd w s' := by
  obtain ⟨hi, he⟩ := h
  refine ⟨fun w' hw' => ?_, by rwa [hb, hf, hfd, hfra]⟩
  rw [hb, hf]
  exact hi w' hw'

/-- As long as there is no end-of-file frame, only the other channel matters. -/
theorem OneEnd.open (h : OneEnd w s) (hc : ∀ w', w' ≠ w → s'.chld.channel w' = s.chld.channel w')
    (hf : .RES2NIOS_EOF ∉ s'.frames) : OneEnd w s' :=
  ⟨fun w' hw' => hc w' hw' ▸ h.idle w' hw', .inl hf⟩

theorem OneEnd.status (h : OneEnd w s) (mode : EndMode) : OneEnd w { s with
    sigchild := none, frames := if mode.quiet then s.frames else s.frames ++ [.RES2NIOS_STATUS] } := by
  by_cases hq : mode.quiet
  · simpa only [hq] using ⟨h.idle, h.frames⟩
  rw [if_neg hq]
  refine ⟨h.idle, h.frames.imp (fun hno => by simpa using hno) ?_⟩
  rintro ⟨hfd, hb, hflag, l, l', hfra, hl, hl'⟩
  refine ⟨hfd, hb, hflag, l, l' ++ [.RES2NIOS_STATUS], by simp [hfra], hl, fun f hf => ?_⟩
  rcases mem_append.mp hf with hf | hf
  · exact hl' f hf
  · exact mem_singleton.mp hf

theorem signalled_chld (mode : EndMode) (s : Ending) : (signalled mode s).chld = s.chld := by
  unfold signalled notify_sigchild
  split
  · split_ifs <;> rfl
  · rfl

theorem OneEnd.signalled (h : OneEnd w s) (mode : EndMode) : OneEnd w (signalled mode s) := by
  unfold Eof.signalled notify_sigchild
  split
  · next stopped _ =>
    by_cases hs : mode.server
    · rwa [if_pos hs]
    · rw [if_neg hs]
      cases stopped
      · exact (h.status mode).congr (fun _ => rfl) (fun _ => rfl) rfl rfl
      · exact h.status mode
  · exact h

theorem dochild_output_other (linebuf : Bool) (chld : Task) (b : Nios) (h : w' ≠ w) :
    (dochild_output linebuf w chld b).1.channel w' = chld.channel w' := by
  unfold dochild_output
  dsimp only
  split_ifs <;> simp [h]

/-- A channel that is read ends once; the other one has neither data nor an end. -/
theorem OneEnd.dochild_buffer (h : OneEnd w s) (mode : EndMode) (w' : Which) : OneEnd w (dochild_buffer mode w' s) := by
  unfold Eof.dochild_buffer
  split_ifs with hf he
  · exact h
  · have hs := h.signalled mode
    dsimp only
    split_ifs with hend
    · obtain rfl : w' = w := by
        by_contra hne
        simp [(hs.idle w' hne).2] at hend
      have ho : .RES2NIOS_EOF ∉ (Eof.signalled mode s).frames :=
        hs.frames.resolve_right fun hended => by simp [hended.2.2.1] at hend
      unfold declare_eof_condition
      refine ⟨fun w hw => ?_, ?_⟩
      · simpa [unlink_child, hw] using hs.idle w hw
      · by_cases hq : mode.quiet
        · simp [unlink_child, hq, ho]
        · refine .inr ⟨by simp [unlink_child], ?_, by simp [unlink_child], _, [], by simp [unlink_child, hq], ho, nofun⟩
          simpa [unlink_child, signalled_chld] using he
    · exact hs
  · obtain rfl : w' = w := by
      by_contra hne
      exact he (h.idle w' hne).1
    have ho := h.frames.resolve_right fun hended => he hended.2.1
    refine h.open (fun w hw => dochild_output_other _ _ _ hw) ?_
    dsimp only
    split_ifs
    · exact ho
    · cases w' <;> simp [ho, Which.opCode]

theorem OneEnd.step (h : OneEnd w s) (mode : EndMode) (op : EndOp) (hop : ∀ w' r final, op = .clear w' r final → w' = w) :
    OneEnd w (endStep mode s op) := by
  unfold endStep
  split
  · exact h
  cases op with
  | print w' data =>
    refine h.congr (fun w => ?_) (fun w => ?_) rfl rfl
    all_goals
      by_cases hw : w = w'
      · subst hw
        simp
      · simp [hw]
  | clear w' r final =>
    obtain rfl := hop w' r final rfl
    dsimp only
    split
    · next hfd =>
      have ho := h.frames.resolve_right fun he => by simp [he.1] at hfd
      exact h.open (fun w hw => by simp [hw]) ho
    · exact h
  | keep =>
    unfold endTurn
    dsimp only
    split_ifs
    · exact h.dochild_buffer mode _
    · exact h.dochild_buffer mode _
    · exact h
    · exact h
  | other data =>
    dsimp only
    split_ifs
    · exact h.congr (fun _ => rfl) (fun _ => rfl) rfl rfl
    · exact h
  | write n => exact h.congr (fun _ => rfl) (fun _ => rfl) rfl rfl
  | exits stopped => exact h.congr (fun _ => rfl) (fun _ => rfl) rfl rfl
  | closeInfo =>
    dsimp only
    split_ifs
    · exact h.congr (fun _ => rfl) (fun _ => rfl) rfl rfl
    · exact h

/-- There is one end-of-file frame at most, and no output after it, if only one channel is read. -/
theorem one_eof (mode : EndMode) (info : Bool) (rpid : Nat) (w : Which) (ops : List EndOp)
    (hops : ∀ w' r final, EndOp.clear w' r final ∈ ops → w' = w) (l l' : List ResNiosCmd)
    (hframes : (ops.foldl (endStep mode) (newTask info rpid)).frames = l ++ .RES2NIOS_EOF :: l') :
    ∀ f ∈ l', f = .RES2NIOS_STATUS := by
  have hs : OneEnd w (newTask info rpid) := ⟨fun w' _ => by cases w' <;> exact ⟨rfl, rfl⟩, .inl (by simp [newTask])⟩
  have hr : OneEnd w (ops.foldl (endStep mode) (newTask info rpid)) := by
    generalize newTask info rpid = s at hs
    clear hframes
    induction ops generalizing s with
    | nil => exact hs
    | cons op ops ih =>
      refine ih (fun w' r final h => hops w' r final (mem_cons_of_mem _ h)) _ (hs.step mode op fun w' r final h => ?_)
      exact hops w' r final (h ▸ mem_cons_self)
  obtain ⟨-, -, -, l0, l1, heq, hl0, hl1⟩ := hr.frames.resolve_left (by simp [hframes])
  rw [hframes] at heq
  rcases append_eq_append_iff.mp heq with ⟨mid, rfl, hr⟩ | ⟨mid, rfl, hr⟩
  · cases mid with
    | nil => exact (cons.inj hr).2 ▸ hl1
    | cons f mid => simp [← (cons.inj hr).1] at hl0
  · cases mid with
    | nil => exact (cons.inj hr).2 ▸ hl1
    | cons f mid =>
      obtain ⟨-, rfl⟩ := cons.inj hr
      exact fun f hf => hl1 f (by simp [hf])

theorem one_eof_out : ([.clear .out .eof none, .keep, .exits false, .keep].foldl (endStep {}) (newTask false 7)).frames =
    [.RES2NIOS_EOF, .RES2NIOS_STATUS] ∧ ∀ f ∈ [ResNiosCmd.RES2NIOS_STATUS], f = .RES2NIOS_STATUS :=
  ⟨by decide, one_eof {} false 7 .out [.clear .out .eof none, .keep, .exits false, .keep] (by
    rintro w r final h
    simp at h
    exact h.1) [] _ (by decide)⟩

/-- The end of the output is declared, output of the other channel goes out, and then its end. -/
theorem eof_twice : ([.clear .out .eof none, .keep, .print .err [10], .clear .err (.got 1) none, .keep, .write 99,
    .clear .err .eof none, .keep].foldl (endStep {}) (newTask false 7)).frames =
      [.RES2NIOS_EOF, .RES2NIOS_STDERR, .RES2NIOS_EOF] := by
  decide

end OpenLava.Res.Eof

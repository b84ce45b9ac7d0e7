import OpenLava.Mbd.DepCond

/-!
# How the parser of dependency conditions groups

The stacks in the middle of an expression are a list of frames, each waiting for an operand. An operator that arrives
merges one frame at most.
-/

namespace OpenLava.DepCond

open List

open OpenLava.JobId (isint_ atoi)

inductive Frame where
  | not
  | and (operand : DptNode)
  | or (operand : DptNode)

def Frame.op : Frame → Operator
  | .not => .not
  | .and _ => .and
  | .or _ => .or

def Frame.operands : Frame → List DptNode
  | .not => []
  | .and x => [x]
  | .or x => [x]

def Frame.plug : Frame → DptNode → DptNode
  | .not, t => .not t
  | .and x, t => .and t x
  | .or x, t => .or t x

def plugs (fs : List Frame) (t : DptNode) : DptNode := fs.foldl (fun t f => f.plug t) t

variable {rest toks : List Token} {s s' : Stacks}

@[simp] theorem plugs_cons (f : Frame) (fs : List Frame) (t : DptNode) : plugs (f :: fs) t = plugs fs (f.plug t) := rfl

@[simp] theorem plugs_append (fs gs : List Frame) (t : DptNode) : plugs (fs ++ gs) t = plugs gs (plugs fs t) :=
  foldl_append

def framed (fs : List Frame) (base : Stacks) (top : List DptNode) : Stacks :=
  ⟨fs.map Frame.op ++ base.operatorStack, top ++ (fs.flatMap Frame.operands ++ base.operandStack)⟩

theorem merge_frame (f : Frame) (t : DptNode) (rest : List DptNode) :
    merge f.op (t :: (f.operands ++ rest)) = some (f.plug t :: rest) := by
  cases f <;> rfl

theorem mergeTop_frame (f : Frame) (fs : List Frame) (base : Stacks) (t : DptNode) :
    mergeTop (framed (f :: fs) base [t]) = some (framed fs base [f.plug t]) := by
  simp [mergeTop, framed, merge_frame]

theorem mergeAll_frames (fs : List Frame) (t : DptNode) (ops : List Operator) (operands : List DptNode) :
    mergeAll (fs.map Frame.op ++ ops) (t :: (fs.flatMap Frame.operands ++ operands)) =
      mergeAll ops (plugs fs t :: operands) := by
  induction fs generalizing t with
  | nil => rfl
  | cons f fs ih => simp [mergeAll, merge_frame, ih]

theorem mergeLeft_frames (fs : List Frame) (t : DptNode) (ops : List Operator) (operands : List DptNode) :
    mergeLeft (fs.map Frame.op ++ .left_ :: ops) (t :: (fs.flatMap Frame.operands ++ operands)) =
      some ⟨ops, plugs fs t :: operands⟩ := by
  induction fs generalizing t with
  | nil => rfl
  | cons f fs ih =>
    have hne : f.op ≠ .left_ := by cases f <;> simp [Frame.op]
    rw [map_cons, cons_append, flatMap_cons, append_assoc, mergeLeft]
    · simp [merge_frame, ih]
    · exact hne

/-- Nothing on top of the stacks binds tighter than `||`. -/
def Neutral (fs : List Frame) (base : Stacks) : Prop := ∀ op ∈ (framed fs base []).operatorStack.head?, op.prece ≤ 1

theorem pushOperator_neutral (h : Neutral fs base) (node : Operator)
    (hn : 1 ≤ node.prece) (top : List DptNode) : pushOperator node (framed fs base top) =
      some ⟨node :: (framed fs base top).operatorStack, (framed fs base top).operandStack⟩ := by
  unfold pushOperator
  cases ho : (framed fs base top).operatorStack with
  | nil => rfl
  | cons op ops =>
    have hop := h op (by simpa [framed] using congrArg List.head? ho)
    simp only [gt_iff_lt, (hop.trans hn).not_gt, if_false]

theorem pushOperator_merge (hlt : node.prece < f.op.prece) (fs : List Frame)
    (base : Stacks) (t : DptNode) : pushOperator node (framed (f :: fs) base [t]) =
      some ⟨node :: (framed fs base []).operatorStack, (framed fs base [f.plug t]).operandStack⟩ := by
  have ht : (framed (f :: fs) base [t]).operatorStack = f.op :: (framed fs base []).operatorStack := rfl
  unfold pushOperator
  rw [ht]
  simp only [gt_iff_lt, hlt, if_true, mergeTop_frame]
  rfl

theorem pushOperator_keep (hle : f.op.prece ≤ node.prece) (fs : List Frame)
    (base : Stacks) (top : List DptNode) : pushOperator node (framed (f :: fs) base top) =
      some ⟨node :: (framed (f :: fs) base top).operatorStack, (framed (f :: fs) base top).operandStack⟩ := by
  have ht : (framed (f :: fs) base top).operatorStack = f.op :: (framed fs base []).operatorStack := rfl
  unfold pushOperator
  rw [ht]
  simp only [gt_iff_lt, hle.not_gt, if_false]

theorem pushOperator_not (s : Stacks) : pushOperator .not s = some ⟨.not :: s.operatorStack, s.operandStack⟩ := by
  unfold pushOperator
  cases ho : s.operatorStack with
  | nil => rfl
  | cons op ops =>
    have hle : op.prece ≤ Operator.not.prece := by cases op <;> decide
    simp only [gt_iff_lt, hle.not_gt, if_false]

def nots : Nat → DptNode → DptNode
  | 0, t => t
  | k + 1, t => .not (nots k t)

/-- What is on top of a `&&` that waits becomes its operand. -/
def attach : Option DptNode → DptNode → DptNode
  | none, t => t
  | some x, t => .and t x

/-- The last `!` in front of an operand is merged when an operator follows; the others wait. -/
def bound : Nat × DptNode → Nat × DptNode
  | (0, t) => (0, t)
  | (k + 1, t) => (k, .not t)

section

variable {α : Type} (leaf : α → DptNode)

/-- The last operand of a conjunction before `|| d`: a waiting `&&` is merged if no `!` is in front. -/
def beforeOr (x : Option DptNode) (d : DptNode) : Nat × DptNode → DptNode
  | (0, t) => .or d (attach x t)
  | (k + 1, t) => attach x (nots k (.or d (.not t)))

mutual

def Primary.read : Primary α → DptNode
  | .cond c => leaf c
  | .paren d => d.read

/-- The number of `!` and what they stand in front of. -/
def Negation.read : Negation α → Nat × DptNode
  | .primary p => (0, p.read)
  | .not n => (n.read.1 + 1, n.read.2)

/-- The tree of a conjunction, with the operand of a waiting `&&` and the tree of what follows behind `||`. -/
def Conj.read : Conj α → Option DptNode → Option DptNode → DptNode
  | .single n, x, none => attach x (nots n.read.1 n.read.2)
  | .single n, x, some d => beforeOr x d n.read
  | .and n c, x, d => attach x (nots (bound n.read).1 (c.read (some (bound n.read).2) d))

def Disj.read : Disj α → DptNode
  | .single c => c.read none none
  | .or c d => c.read none (some d.read)

end

end

def waiting : Option DptNode → List Frame
  | none => []
  | some x => [.and x]

@[simp] theorem plugs_waiting (x : Option DptNode) (t : DptNode) : plugs (waiting x) t = attach x t := by
  cases x <;> rfl

@[simp] theorem plugs_nots (k : Nat) (t : DptNode) : plugs (replicate k .not) t = nots k t := by
  induction k generalizing t with
  | zero => rfl
  | succ k ih =>
    have hc : ∀ k t, nots k (.not t) = .not (nots k t) := by
      intro k t
      induction k with
      | zero => rfl
      | succ k ih => simp [nots, ih]
    rw [replicate_succ, plugs_cons, ih]
    exact hc k t

/-- `&&` behind an operand: it waits on top of the `!` that are left. -/
theorem push_and (x : Option DptNode) (fs : List Frame) (base : Stacks) (hn : x = none → Neutral fs base)
    (r : Nat × DptNode) : pushOperator .and (framed (replicate r.1 .not ++ (waiting x ++ fs)) base [r.2]) =
      some (framed (.and (bound r).2 :: (replicate (bound r).1 .not ++ (waiting x ++ fs))) base []) := by
  obtain ⟨k, t⟩ := r
  cases k with
  | zero =>
    cases x with
    | none => exact pushOperator_neutral (hn rfl) .and (by decide) [t]
    | some x => exact pushOperator_keep (f := .and x) (by simp [Frame.op]) fs base [t]
  | succ k =>
    exact pushOperator_merge (f := .not) (show Operator.and.prece < Operator.not.prece by decide)
      (replicate k .not ++ (waiting x ++ fs)) base t

theorem push_or (x : Option DptNode) (fs : List Frame) (base : Stacks) (hn : x = none → Neutral fs base)
    (r : Nat × DptNode) : ∃ y gs, pushOperator .or (framed (replicate r.1 .not ++ (waiting x ++ fs)) base [r.2]) =
    some (framed (.or y :: gs) base []) ∧ ∀ d, plugs (.or y :: gs) d = plugs fs (beforeOr x d r) := by
  obtain ⟨k, t⟩ := r
  cases k with
  | zero =>
    cases x with
    | none => exact ⟨t, fs, pushOperator_neutral (hn rfl) .or (by decide) [t], fun d => rfl⟩
    | some x =>
      have hlt : Operator.or.prece < Operator.and.prece := by decide
      exact ⟨.and t x, fs, pushOperator_merge (f := .and x) hlt fs base t, fun d => rfl⟩
  | succ k =>
    refine ⟨.not t, _, pushOperator_merge (f := .not) (by decide) (replicate k .not ++ (waiting x ++ fs)) base t,
      ?_⟩
    intro d
    simp [beforeOr, Frame.plug]

section

variable (matchJobs : List Char → List Nat)

def Reads : List Token × Stacks → List Token × Stacks → Prop :=
  Relation.ReflTransGen fun a b => ∃ token rest, a.1 = token :: rest ∧ parseToken matchJobs token rest a.2 = some b

variable {matchJobs}

theorem Reads.step {token : Token} {rest' : List Token}
    (h : parseToken matchJobs token rest s = some (rest', s')) : Reads matchJobs (token :: rest, s) (rest', s') :=
  .single ⟨token, rest, rfl, h⟩

theorem exitArgs_length (h : exitArgs toks = some (op, code, rest)) : rest.length < toks.length := by
  unfold exitArgs at h
  split at h
  · cases h
    simp
  · split at h
    · cases h
      simp only [length_cons]
      omega
    · cases h
  · split at h
    · cases h
      simp only [length_cons]
      omega
    · cases h
  · cases h

theorem jobCond_length {type : DptType} {nodes : List JobNode}
    (h : jobCond matchJobs type toks = some (nodes, rest)) : rest.length < toks.length := by
  unfold jobCond at h
  split at h
  · split at h
    · simp only [Option.bind_eq_bind, Option.bind_eq_some_iff, Option.pure_def, Option.some.injEq, Prod.mk.injEq] at h
      obtain ⟨⟨op, code, rest'⟩, ha, nodes', -, -, rfl⟩ := h
      have := exitArgs_length ha
      simp only [length_cons]
      omega
    · split at h
      · simp only [Option.bind_eq_bind, Option.bind_eq_some_iff, Option.pure_def, Option.some.injEq,
          Prod.mk.injEq] at h
        obtain ⟨nodes', -, -, rfl⟩ := h
        simp only [length_cons]
        omega
      · cases h
  · cases h

theorem parseToken_length {token : Token} {rest' : List Token}
    (h : parseToken matchJobs token rest s = some (rest', s')) : rest'.length ≤ rest.length := by
  unfold parseToken at h
  split at h
  all_goals simp only [Option.map_eq_some_iff, Option.bind_eq_bind, Option.bind_eq_some_iff, Option.pure_def,
    Option.some.injEq, Prod.mk.injEq, reduceCtorEq] at h
  all_goals first
    | (obtain ⟨_, _, rfl, _⟩ := h; exact le_rfl)
    | (obtain ⟨rfl, _⟩ := h; exact le_rfl)
    | (obtain ⟨⟨nodes, rest''⟩, hc, _, _, rfl, _⟩ := h; exact (jobCond_length hc).le)
    | (obtain ⟨_, _, _, _, rfl, _⟩ := h; exact le_rfl)

theorem parseTokens_of_reads (h : Reads matchJobs (toks, s) ([], s')) (fuel : Nat)
    (hf : toks.length ≤ fuel) : parseTokens matchJobs fuel toks s = some s' := by
  generalize ha : (toks, s) = a at h
  induction h using Relation.ReflTransGen.head_induction_on generalizing toks s fuel with
  | refl =>
    cases ha
    cases fuel <;> rfl
  | @head a b hs _ ih =>
    subst ha
    obtain ⟨token, rest, rfl, hpar⟩ := hs
    obtain ⟨rest', t⟩ := b
    have hle := parseToken_length hpar
    cases fuel with
    | zero => simp at hf
    | succ fuel =>
      simp only [length_cons, Nat.add_le_add_iff_right] at hf
      rw [parseTokens, hpar]
      exact ih fuel (hle.trans hf) rfl

/-! Reading each part of an expression, where the loop reads each condition as one operand. -/

variable {α : Type} {cond : α → List Token} {leaf : α → DptNode}

theorem neutral_or (y : DptNode) (fs : List Frame) (base : Stacks) : Neutral (.or y :: fs) base := by
  rintro op ⟨⟩
  exact le_rfl

theorem neutral_left (ops : List Operator) (operands : List DptNode) : Neutral [] ⟨.left_ :: ops, operands⟩ := by
  rintro op ⟨⟩
  decide

/-- The tokens of a condition become one operand. -/
def ReadsConds (matchJobs : List Char → List Nat) (cond : α → List Token) (leaf : α → DptNode) : Prop :=
  ∀ c rest s, Reads matchJobs (cond c ++ rest, s) (rest, { s with operandStack := leaf c :: s.operandStack })

mutual

theorem Primary.reads (hc : ReadsConds matchJobs cond leaf) (p : Primary α) (rest : List Token) (s : Stacks) :
    Reads matchJobs (p.tokens cond ++ rest, s) (rest, { s with operandStack := p.read leaf :: s.operandStack }) := by
  cases p with
  | cond c => exact hc c rest s
  | paren d =>
    have ho : Reads matchJobs ((Primary.paren d).tokens cond ++ rest, s)
        (d.tokens cond ++ (rightToken :: rest), framed [] ⟨.left_ :: s.operatorStack, s.operandStack⟩ []) :=
      .step (by simp [parseToken, leftToken, framed])
    obtain ⟨fs, t, hr, hplu⟩ :=
      d.reads hc [] ⟨.left_ :: s.operatorStack, s.operandStack⟩ (rightToken :: rest) (neutral_left _ _)
    refine (ho.trans hr).trans (Reads.step ?_)
    have hmer := mergeLeft_frames fs t s.operatorStack s.operandStack
    simp only [parseToken, rightToken, framed, cons_append, nil_append, hmer, Option.map_some, hplu]
    rfl

theorem Negation.reads (hc : ReadsConds matchJobs cond leaf) (n : Negation α) (fs : List Frame) (base : Stacks)
    (rest : List Token) : Reads matchJobs (n.tokens cond ++ rest, framed fs base [])
      (rest, framed (replicate (n.read leaf).1 .not ++ fs) base [(n.read leaf).2]) := by
  cases n with
  | primary p => exact p.reads hc rest (framed fs base [])
  | not n =>
    have hn : Reads matchJobs ((Negation.not n).tokens cond ++ rest, framed fs base [])
        (n.tokens cond ++ rest, framed (.not :: fs) base []) :=
      Reads.step (by simp [parseToken, pushOperator_not, framed, Frame.op, Frame.operands])
    have hr := n.reads hc (.not :: fs) base rest
    have hf : replicate (n.read leaf).1 Frame.not ++ .not :: fs =
        replicate ((Negation.not n).read leaf).1 Frame.not ++ fs := by
      rw [Negation.read, replicate_succ', append_assoc]
      rfl
    rw [hf] at hr
    exact hn.trans hr

theorem Conj.reads (hc : ReadsConds matchJobs cond leaf) (c : Conj α) (x : Option DptNode) (fs : List Frame)
    (base : Stacks) (rest : List Token) (hn : x = none → Neutral fs base) :
    ∃ gs t, Reads matchJobs (c.tokens cond ++ rest, framed (waiting x ++ fs) base []) (rest, framed gs base [t]) ∧
      plugs gs t = plugs fs (c.read leaf x none) ∧
      ∃ y hs, pushOperator .or (framed gs base [t]) = some (framed (.or y :: hs) base []) ∧
        ∀ d, plugs (.or y :: hs) d = plugs fs (c.read leaf x (some d)) := by
  cases c with
  | single n =>
    have hr := n.reads hc (waiting x ++ fs) base rest
    refine ⟨_, _, hr, by simp [Conj.read], ?_⟩
    exact push_or x fs base hn (n.read leaf)
  | and n c =>
    have hr := n.reads hc (waiting x ++ fs) base (⟨.AND, ['&', '&']⟩ :: (c.tokens cond ++ rest))
    have hpush := push_and x fs base hn (n.read leaf)
    have ha : Reads matchJobs (⟨.AND, ['&', '&']⟩ :: (c.tokens cond ++ rest),
        framed (replicate (n.read leaf).1 .not ++ (waiting x ++ fs)) base [(n.read leaf).2])
        (c.tokens cond ++ rest, _) :=
      Reads.step (by simp only [parseToken, hpush, Option.map_some]; rfl)
    obtain ⟨gs, t, hrest, hplu, y, hs, hpush', hor⟩ := c.reads hc (some (bound (n.read leaf)).2)
      (replicate (bound (n.read leaf)).1 .not ++ (waiting x ++ fs)) base rest (by simp)
    refine ⟨gs, t, ?_, by simpa [Conj.read] using hplu, y, hs, hpush', fun d => by simpa [Conj.read] using hor d⟩
    rw [Conj.tokens, append_assoc]
    exact (hr.trans ha).trans hrest

theorem Disj.reads (hc : ReadsConds matchJobs cond leaf) (d : Disj α) (fs : List Frame) (base : Stacks)
    (rest : List Token) (hn : Neutral fs base) :
    ∃ gs t, Reads matchJobs (d.tokens cond ++ rest, framed fs base []) (rest, framed gs base [t]) ∧
      plugs gs t = plugs fs (d.read leaf) := by
  cases d with
  | single c =>
    obtain ⟨gs, t, hr, hplu, -⟩ := c.reads hc none fs base rest (fun _ => hn)
    exact ⟨gs, t, hr, hplu⟩
  | or c d =>
    obtain ⟨gs, t, hr, -, y, hs, hpush, hor⟩ :=
      c.reads hc none fs base (⟨.OR, ['|', '|']⟩ :: (d.tokens cond ++ rest)) (fun _ => hn)
    have hstep : Reads matchJobs (⟨.OR, ['|', '|']⟩ :: (d.tokens cond ++ rest), framed gs base [t])
        (d.tokens cond ++ rest, framed (.or y :: hs) base []) :=
      Reads.step (by simp only [parseToken, hpush, Option.map_some])
    obtain ⟨gs', t', hrest, hplu⟩ := d.reads hc (.or y :: hs) base rest (neutral_or y hs base)
    refine ⟨gs', t', ?_, hplu.trans (hor _)⟩
    rw [Disj.tokens, append_assoc]
    exact (hr.trans hstep).trans hrest

end

theorem parseDepCond_tokens (hc : ReadsConds matchJobs cond leaf) (d : Disj α) :
    parseDepCond matchJobs (d.tokens cond) = some (d.read leaf) := by
  obtain ⟨gs, t, hr, hplu⟩ := d.reads hc [] ⟨[], []⟩ [] (by rintro op ⟨⟩)
  rw [append_nil] at hr
  have hpar := parseTokens_of_reads hr _ le_rfl
  have hmer := mergeAll_frames gs t [] []
  simp only [hplu] at hmer
  simp only [parseDepCond]
  rw [show (⟨[], []⟩ : Stacks) = framed [] ⟨[], []⟩ [] from rfl, hpar]
  simp only [framed, cons_append, nil_append, hmer]
  rfl

end

section

variable (matchJobs : List Char → List Nat)

abbrev Found := { c : JobCond // matchJobs c.jobName ≠ [] }

variable {matchJobs}

def joined (node : JobNode) (nodes : List JobNode) : DptNode :=
  nodes.foldl (fun t node => .and (.job node) t) (.job node)

def Found.leaf (c : Found matchJobs) : DptNode :=
  joined (c.1.node ((matchJobs c.1.jobName).head c.2)) ((matchJobs c.1.jobName).tail.map fun job => c.1.node job)

theorem createMoreNodes_false (nodes : List JobNode) (ops : List Operator) (t : DptNode) (operands : List DptNode) :
    createMoreNodes nodes false ⟨ops, t :: operands⟩ =
      some ⟨ops, nodes.foldl (fun t node => .and (.job node) t) t :: operands⟩ := by
  induction nodes generalizing t with
  | nil => rfl
  | cons node nodes ih => simp [createMoreNodes, mergeTop, merge, ih]

theorem createMoreNodes_found (c : Found matchJobs) (s : Stacks) :
    createMoreNodes ((matchJobs c.1.jobName).map fun job => c.1.node job) true s =
      some { s with operandStack := c.leaf :: s.operandStack } := by
  obtain ⟨job, jobs, hj⟩ := exists_cons_of_ne_nil c.2
  simp [hj, createMoreNodes, createMoreNodes_false, Found.leaf, joined]

theorem exitArgs_relation (hop : isRelation op = true) (hcode : isint_ code = true) (rest : List Token) :
    exitArgs (commaToken :: ⟨op, []⟩ :: ⟨.NAME, code⟩ :: rightToken :: rest) = some (op, atoi code, rest) := by
  cases op <;> simp_all [exitArgs, commaToken, rightToken, isRelation]

theorem readsConds_found : ReadsConds matchJobs (fun c : Found matchJobs => c.1.tokens) Found.leaf := by
  rintro ⟨c, hc⟩ rest s
  have hmore := createMoreNodes_found ⟨c, hc⟩ s
  generalize Found.leaf ⟨c, hc⟩ = t at hmore ⊢
  cases c with
  | bare name =>
    refine Reads.step ?_
    have hne : matchJobs name ≠ [] := hc
    simp only [JobCond.jobName, JobCond.node] at hmore
    simp [parseToken, nodesOf, hne, hmore]
  | on dep name =>
    refine Reads.step ?_
    have hne : matchJobs name ≠ [] := hc
    simp only [JobCond.jobName, JobCond.node] at hmore
    cases dep <;>
      simp only [JobDep.type] at hmore <;>
      simp [parseToken, JobDep.type, jobCond, exitArgs, leftToken, rightToken, nodesOf, hne, hmore]
  | exitCode name code hcode =>
    refine Reads.step ?_
    have hne : matchJobs name ≠ [] := hc
    simp only [JobCond.jobName, JobCond.node] at hmore
    simp [parseToken, jobCond, exitArgs, leftToken, rightToken, commaToken, nodesOf, hne, hcode, hmore]
  | exitRelation name op hop code hcode =>
    refine Reads.step ?_
    have hne : matchJobs name ≠ [] := hc
    simp only [JobCond.jobName, JobCond.node] at hmore
    simp [parseToken, jobCond, leftToken, exitArgs_relation hop hcode, nodesOf, hne, hmore]

end

end OpenLava.DepCond

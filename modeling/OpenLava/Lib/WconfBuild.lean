import OpenLava.Lib.WconfRead

/-!
# Building the tree

A text with well nested directives is the text of a syntax tree, by which the nodes of `ls_getconf` are laid out.
-/

namespace OpenLava.Wconf

open Function List

inductive Loc where
  | root
  | ptr (i : Nat) (f : Field)
  deriving DecidableEq

def Build.content (b : Build) : Loc → Option Nat
  | .root => b.rootNode
  | .ptr i f => (b.node i).ptr f

def Build.slot (b : Build) : Option Loc :=
  match b.prev with
  | none => if b.rootNode = none then some .root else none
  | some prev => (b.node prev).free.map (.ptr prev)

structure WF (b : Build) : Prop where
  ptrs : ∀ i ∈ b.ptrStack, i < b.size
  blocks : ∀ i ∈ b.blockStack, i < b.size
  prev : ∀ i, b.prev = some i → i < b.size
  root : b.rootNode = none → b.prev = none

variable {check : Line → Bool} {b b' b'' : Build} {ℓ : Loc} {i p q : Nat} {ls : List Line} {n : ConfNode} {ps bs : List Nat}
  {lines rest : List (Line × Nat)} {body next : Conf} {cond : Line}

theorem ptr_setPtr (n : ConfNode) (f g : Field) (p : Nat) : (n.setPtr f p).ptr g = if f = g then some p else n.ptr g := by
  cases f <;> cases g <;> rfl

theorem ptr_linkNode (n : ConfNode) (j : Nat) (f : Field) :
    (linkNode n j).ptr f = if n.free = some f then some j else n.ptr f := by
  unfold linkNode
  split
  · next g hg => simp [ptr_setPtr, hg]
  · next hg => simp [hg]

theorem linkNode_same (n : ConfNode) (j : Nat) : (linkNode n j).cond = n.cond ∧ (linkNode n j).lines = n.lines := by
  unfold linkNode
  split
  · next f _ => cases f <;> exact ⟨rfl, rfl⟩
  · exact ⟨rfl, rfl⟩

theorem content_attach (hwf : WF b) (n : ConfNode) (hold : ∀ i f, ℓ = .ptr i f → i < b.size) :
    (b.attach n).content ℓ = if b.slot = some ℓ then some b.size else b.content ℓ := by
  cases ℓ with
  | root =>
    cases hr : b.rootNode with
    | none => simp [Build.content, Build.attach, Build.slot, hr, hwf.root hr]
    | some r =>
      have hs : b.slot ≠ some .root := by
        unfold Build.slot
        split
        · simp [hr]
        · simp
      simp [Build.content, Build.attach, hr, hs]
  | ptr i f =>
    have hne : i ≠ b.size := (hold i f rfl).ne
    cases hprev : b.prev with
    | none =>
      have hs : b.slot ≠ some (.ptr i f) := by
        simp only [Build.slot, hprev]
        split <;> simp
      simp [Build.content, Build.attach, hprev, hs, hne]
    | some prev =>
      by_cases hi : i = prev
      · subst hi
        simp [Build.content, Build.attach, Build.slot, hprev, hne, ptr_linkNode]
      · have hs : b.slot ≠ some (.ptr i f) := by
          simp only [Build.slot, hprev]
          intro h
          obtain ⟨g, -, hg⟩ := Option.map_eq_some_iff.mp h
          cases hg
          exact hi rfl
        simp [Build.content, Build.attach, hprev, hs, hne, hi]

theorem attach_node_new (b : Build) (n : ConfNode) : (b.attach n).node b.size = n := by
  simp [Build.attach]

theorem attach_same (hi : i < b.size) (n : ConfNode) :
    ((b.attach n).node i).cond = (b.node i).cond ∧ ((b.attach n).node i).lines = (b.node i).lines := by
  simp only [Build.attach, update_of_ne hi.ne]
  cases b.prev with
  | none => exact ⟨rfl, rfl⟩
  | some prev =>
    dsimp only
    by_cases h : i = prev
    · subst h
      rw [update_self]
      exact linkNode_same ..
    · rw [update_of_ne h]
      exact ⟨rfl, rfl⟩

theorem attach_slot (b : Build) (n : ConfNode) : (b.attach n).slot = n.free.map (.ptr b.size) := by
  have hs : (b.attach n).slot = ((b.attach n).node b.size).free.map (.ptr b.size) := rfl
  rw [hs, attach_node_new]

theorem attach_wf (hwf : WF b) (n : ConfNode) : WF (b.attach n) := by
  refine ⟨fun i hi => (hwf.ptrs i hi).trans (Nat.lt_succ_self _), fun i hi => (hwf.blocks i hi).trans (Nat.lt_succ_self _),
    ?_, ?_⟩
  · rintro i ⟨⟩
    exact Nat.lt_succ_self _
  · intro h
    simp [Build.attach] at h

/-- A pointer not set any more: its node is on no stack unless it is the first of three. -/
def Dead (b : Build) (ℓ : Loc) : Prop :=
  ∃ i f, ℓ = .ptr i f ∧ i < b.size ∧ b.slot ≠ some ℓ ∧ (i ∈ b.ptrStack ∨ i ∈ b.blockStack → f = .left)

/-- What does not change from one state of `ls_getconf` to a later one. -/
structure Persist (b b' : Build) : Prop where
  size : b.size ≤ b'.size
  node : ∀ i < b.size, (b'.node i).cond = (b.node i).cond ∧ (b'.node i).lines = (b.node i).lines
  filled : ∀ ℓ j, (∀ i f, ℓ = .ptr i f → i < b.size) → b.content ℓ = some j → b'.content ℓ = some j
  dead : ∀ ℓ, Dead b ℓ → Dead b' ℓ ∧ b'.content ℓ = b.content ℓ

theorem Persist.refl (b : Build) : Persist b b :=
  ⟨le_rfl, fun _ _ => ⟨rfl, rfl⟩, fun _ _ _ h => h, fun _ h => ⟨h, rfl⟩⟩

theorem Persist.root (h : Persist b b') (hroot : b.rootNode ≠ none) : b'.rootNode ≠ none := by
  obtain ⟨r, hr⟩ := Option.ne_none_iff_exists'.mp hroot
  have hr' : b'.rootNode = some r := h.filled .root r (by simp) hr
  simp [hr']

theorem Persist.trans (h : Persist b b') (h' : Persist b' b'') : Persist b b'' := by
  refine ⟨h.size.trans h'.size, fun i hi => ?_, fun ℓ j hold hj => ?_, fun ℓ hd => ?_⟩
  · obtain ⟨hc, hl⟩ := h.node i hi
    obtain ⟨hc', hl'⟩ := h'.node i (hi.trans_le h.size)
    exact ⟨hc'.trans hc, hl'.trans hl⟩
  · exact h'.filled ℓ j (fun i f hℓ => (hold i f hℓ).trans_le h.size) (h.filled ℓ j hold hj)
  · obtain ⟨hd', hs⟩ := h.dead ℓ hd
    obtain ⟨hd'', hs'⟩ := h'.dead ℓ hd'
    exact ⟨hd'', hs'.trans hs⟩

theorem free_nodes (n : ConfNode) (f : Field) (h : n.free = some f) : f ∈ n.tries ∧ n.ptr f = none := by
  refine ⟨mem_of_find?_eq_some h, ?_⟩
  simpa using List.find?_some h

theorem slot_empty (hs : b.slot = some ℓ) : b.content ℓ = none := by
  revert hs
  unfold Build.slot
  split
  · split
    · next hr =>
      rintro ⟨⟩
      exact hr
    · simp
  · intro h
    obtain ⟨f, hf, rfl⟩ := Option.map_eq_some_iff.mp h
    exact (free_nodes _ f hf).2

/-- A node put at the end of the file changes the slot, and nothing else that was there. -/
theorem attach_persist (hwf : WF b) (n : ConfNode) : Persist b (b.attach n) := by
  refine ⟨Nat.le_succ _, fun i hi => attach_same hi n, fun ℓ j hold hj => ?_, ?_⟩
  · rw [content_attach hwf n hold]
    split
    · next hs =>
      rw [slot_empty hs] at hj
      simp at hj
    · exact hj
  · rintro ℓ ⟨i, f, rfl, hi, hs, hsta⟩
    refine ⟨⟨i, f, rfl, hi.trans (Nat.lt_succ_self _), ?_, hsta⟩, ?_⟩
    · intro h
      obtain ⟨g, -, hg⟩ := Option.map_eq_some_iff.mp h
      cases hg
      exact hi.false
    · rw [content_attach hwf n (by rintro i' f' ⟨⟩; exact hi), if_neg hs]

/-- `#else`, `#elif` and `#endif` go back to a node of a stack. -/
def Build.back (b : Build) (i : Nat) (tag : NodeTag) : Build := { b.setTag i tag with prev := some i }

theorem back_content (b : Build) (i : Nat) (tag : NodeTag) (ℓ : Loc) : (b.back i tag).content ℓ = b.content ℓ := by
  cases ℓ with
  | root => rfl
  | ptr k f =>
    by_cases h : k = i
    · subst h
      cases f <;> simp [Build.back, Build.content, Build.setTag, ConfNode.ptr]
    · simp [Build.back, Build.content, Build.setTag, h]

theorem back_same (b : Build) (i : Nat) (tag : NodeTag) (k : Nat) :
    ((b.back i tag).node k).cond = (b.node k).cond ∧ ((b.back i tag).node k).lines = (b.node k).lines := by
  by_cases h : k = i
  · subst h
    simp [Build.back, Build.setTag]
  · simp [Build.back, Build.setTag, h]

theorem back_free (b : Build) (i : Nat) (tag : NodeTag) :
    (b.back i tag).slot = ({ b.node i with tag := tag } : ConfNode).free.map (.ptr i) := by
  have hs : (b.back i tag).slot = ((b.back i tag).node i).free.map (.ptr i) := rfl
  rw [hs]
  simp [Build.back, Build.setTag]

theorem back_wf (hwf : WF b) (hi : i < b.size) (hr : b.rootNode ≠ none) (tag : NodeTag) : WF (b.back i tag) := by
  refine ⟨hwf.ptrs, hwf.blocks, ?_, fun h => absurd h hr⟩
  rintro k ⟨⟩
  exact hi

theorem back_persist (hsta : i ∈ b.ptrStack ∨ i ∈ b.blockStack)
    (hf : ({ b.node i with tag := tag } : ConfNode).free ≠ some .left) : Persist b (b.back i tag) := by
  refine ⟨le_rfl, fun k _ => back_same b i tag k, fun ℓ j _ hj => (back_content b i tag ℓ).trans hj, ?_⟩
  rintro ℓ ⟨k, f, rfl, hk, hslot, hs⟩
  refine ⟨⟨k, f, rfl, hk, ?_, hs⟩, back_content b i tag _⟩
  rw [back_free]
  intro h
  obtain ⟨g, hg, hl⟩ := Option.map_eq_some_iff.mp h
  cases hl
  rw [hs hsta] at hg
  exact hf hg

theorem Persist.restack (h : Persist b b') (hs : b''.size = b'.size) (hn : b''.node = b'.node)
    (hr : b''.rootNode = b'.rootNode) (hprev : b''.prev = b'.prev)
    (hsta : ∀ i < b.size, i ∈ b''.ptrStack ∨ i ∈ b''.blockStack → i ∈ b.ptrStack ∨ i ∈ b.blockStack) :
    Persist b b'' := by
  have hc : ∀ ℓ, b''.content ℓ = b'.content ℓ := by
    intro ℓ
    cases ℓ with
    | root => exact hr
    | ptr i f => simp only [Build.content, hn]
  have hslot : b''.slot = b'.slot := by
    simp only [Build.slot, hprev, hr, hn]
  refine ⟨hs ▸ h.size, hn ▸ h.node, fun ℓ j hold hj => (hc ℓ).trans (h.filled ℓ j hold hj), ?_⟩
  rintro ℓ ⟨i, f, rfl, hi, hne, hl⟩
  obtain ⟨⟨i', f', heq, hi', hne', -⟩, hsame⟩ := h.dead _ ⟨i, f, rfl, hi, hne, hl⟩
  cases heq
  exact ⟨⟨i, f, rfl, hs ▸ hi', hslot ▸ hne', fun hin => hl (hsta i hi hin)⟩, (hc _).trans hsame⟩

theorem slot_old (hwf : WF b) (hs : b.slot = some ℓ) : ∀ i f, ℓ = .ptr i f → i < b.size := by
  rintro i f rfl
  revert hs
  unfold Build.slot
  split
  · split <;> simp
  · next prev hprev =>
    intro h
    obtain ⟨g, -, hg⟩ := Option.map_eq_some_iff.mp h
    cases hg
    exact hwf.prev _ hprev

theorem Sel.mono {F : Nat → ConfNode} {lo lo' : Nat} {p : Option Nat} (h : Sel F check lo p ls)
    (hle : lo' ≤ lo) : Sel F check lo' p ls := by
  cases h with
  | nil => exact .nil
  | text hlo hc hfw => exact .text (hle.trans hlo) hc hfw
  | cond hlo hc hbranch hfw => exact .cond (hle.trans hlo) hc hbranch hfw

/-- The text between two states selects `ls`, in front of whatever follows. -/
structure Lays (check : Line → Bool) (b b' : Build) (ls : List Line) : Prop where
  wf : WF b'
  persist : Persist b b'
  ptrs : b'.ptrStack = b.ptrStack
  blocks : b'.blockStack = b.blockStack
  kept : ∀ i < b.size, ∀ f, b.slot ≠ some (.ptr i f) → (b'.node i).ptr f = (b.node i).ptr f
  slot : ∀ ℓ, b.slot = some ℓ → ∃ ℓ', b'.slot = some ℓ' ∧
    (ℓ' = ℓ ∨ ∃ q, b.size ≤ q ∧ q < b'.size ∧ ℓ' = .ptr q .fw) ∧
    ∀ F, Persist b' F → ∀ rest, Sel F.node check b'.size (F.content ℓ') rest →
      Sel F.node check b.size (F.content ℓ) (ls ++ rest)

theorem Lays.refl (hwf : WF b) : Lays check b b [] :=
  ⟨hwf, .refl b, rfl, rfl, fun _ _ _ _ => rfl, fun ℓ hℓ => ⟨ℓ, hℓ, Or.inl rfl, fun _ _ _ h => h⟩⟩

theorem Lays.trans {ls' : List Line} (h : Lays check b b' ls) (h' : Lays check b' b'' ls')
    (hs : ∃ ℓ, b.slot = some ℓ) : Lays check b b'' (ls ++ ls') := by
  obtain ⟨ℓ, hℓ⟩ := hs
  obtain ⟨ℓ', hℓ', hw, hs⟩ := h.slot ℓ hℓ
  obtain ⟨ℓ'', hℓ'', hw', hs'⟩ := h'.slot ℓ' hℓ'
  refine ⟨h'.wf, h.persist.trans h'.persist, h'.ptrs.trans h.ptrs, h'.blocks.trans h.blocks, ?_, ?_⟩
  · intro i hi f hne
    rw [h'.kept i (hi.trans_le h.persist.size) f, h.kept i hi f hne]
    rw [hℓ']
    rintro ⟨⟩
    rcases hw with rfl | ⟨q, hq, -, heq⟩
    · exact hne hℓ
    · cases heq
      omega
  · intro ℓ₀ hℓ₀
    obtain rfl : ℓ = ℓ₀ := Option.some.inj (hℓ.symm.trans hℓ₀)
    refine ⟨ℓ'', hℓ'', ?_, ?_⟩
    · have hsize := h'.persist.size
      rcases hw' with rfl | ⟨q, hq, hlt, rfl⟩
      · rcases hw with rfl | ⟨q, hq, hlt, rfl⟩
        · exact Or.inl rfl
        · exact Or.inr ⟨q, hq, hlt.trans_le hsize, rfl⟩
      · exact Or.inr ⟨q, h.persist.size.trans hq, hlt, rfl⟩
    · intro F hF rest hr
      rw [append_assoc]
      exact hs F (h'.persist.trans hF) _ (hs' F hF rest hr)

theorem attach_lays (hwf : WF b) (hcond : n.cond = none) (hfw : n.fwPtr = none) :
    Lays check b (b.attach n) n.lines := by
  have hf : n.free = some .fw := by simp [ConfNode.free, ConfNode.tries, ConfNode.ptr, hcond, hfw]
  refine ⟨attach_wf hwf n, attach_persist hwf n, rfl, rfl, ?_, ?_⟩
  · intro i hi f hne
    have hc := content_attach hwf n (ℓ := .ptr i f) (by rintro i' f' ⟨⟩; exact hi)
    rwa [if_neg hne] at hc
  · intro ℓ hℓ
    refine ⟨.ptr b.size .fw, by rw [attach_slot, hf]; rfl,
      Or.inr ⟨b.size, le_rfl, Nat.lt_succ_self _, rfl⟩, ?_⟩
    intro F hF rest hr
    have hptr : F.content ℓ = some b.size := by
      refine hF.filled ℓ _ (fun i f h => (slot_old hwf hℓ i f h).trans (Nat.lt_succ_self _)) ?_
      rw [content_attach hwf n (slot_old hwf hℓ), if_pos hℓ]
    obtain ⟨hc, hl⟩ := hF.node b.size (Nat.lt_succ_self _)
    rw [attach_node_new] at hc hl
    rw [hptr, ← hl]
    exact .text le_rfl (hc.trans hcond) hr

theorem flush_lays (hwf : WF b) (run : List (Line × Nat)) : Lays check b (flush run b) (run.map Prod.fst) := by
  cases run with
  | nil => exact .refl hwf
  | cons first run => exact attach_lays hwf rfl rfl

theorem flush_defs (run : List (Line × Nat)) (b : Build) : (flush run b).defs = b.defs := by
  cases run <;> rfl

mutual

inductive Conf where
  | done
  | text (line : Line) (next : Conf)
  | define (name cond : Line) (next : Conf)
  | block (cond : Line) (body : Conf) (tail : Tail) (next : Conf)

inductive Tail where
  | endif
  | else_ (body : Conf)
  | elif (cond : Line) (body : Conf) (tail : Tail)

end

mutual

def Conf.tokens : Conf → List Token
  | .done => []
  | .text line next => .text line :: next.tokens
  | .define name cond next => .define name cond :: next.tokens
  | .block cond body tail next => .if_ cond :: (body.tokens ++ (tail.tokens ++ next.tokens))

def Tail.tokens : Tail → List Token
  | .endif => [.endif]
  | .else_ body => .else_ :: (body.tokens ++ [.endif])
  | .elif cond body tail => .elif cond :: (body.tokens ++ tail.tokens)

end

def addDef (defs : List (Line × Line)) (name cond : Line) : List (Line × Line) := defs ++ [(name, expand defs cond)]

mutual

/-- The macros behind a text: every `#define` counts, whatever branch it is in. -/
def Conf.defsAfter : Conf → List (Line × Line) → List (Line × Line)
  | .done, defs => defs
  | .text _ next, defs => next.defsAfter defs
  | .define name cond next, defs => next.defsAfter (addDef defs name cond)
  | .block _ body tail next, defs => next.defsAfter (tail.defsAfter (body.defsAfter defs))

def Tail.defsAfter : Tail → List (Line × Line) → List (Line × Line)
  | .endif, defs => defs
  | .else_ body, defs => body.defsAfter defs
  | .elif _ body tail, defs => tail.defsAfter (body.defsAfter defs)

end

mutual

def Conf.selected (value : Line → Bool) : Conf → List (Line × Line) → List Line
  | .done, _ => []
  | .text line next, defs => line :: next.selected value defs
  | .define name cond next, defs => next.selected value (addDef defs name cond)
  | .block cond body tail next, defs =>
    (if value (expand defs cond) then body.selected value defs else tail.selected value (body.defsAfter defs)) ++
      next.selected value (tail.defsAfter (body.defsAfter defs))

def Tail.selected (value : Line → Bool) : Tail → List (Line × Line) → List Line
  | .endif, _ => []
  | .else_ body, defs => body.selected value defs
  | .elif cond body tail, defs =>
    if value (expand defs cond) then body.selected value defs else tail.selected value (body.defsAfter defs)

end

/-- The loops of `ls_getconf` up to a place, with the lines collected there. -/
def runLines : List (Line × Nat) → List (Line × Nat) → Build → Option (List (Line × Nat) × Build)
  | [], run, b => some (run, b)
  | line :: rest, run, b =>
    match token line.1 with
    | .text _ => runLines rest (run ++ [line]) b
    | t => (directive t (flush run b)).bind (runLines rest [])

theorem buildTree_eq (lines run : List (Line × Nat)) (b : Build) :
    buildTree lines run b = (runLines lines run b).map fun x => flush x.1 x.2 := by
  induction lines generalizing run b with
  | nil => rfl
  | cons line rest ih =>
    cases ht : token line.1 with
    | text l => simp only [buildTree, runLines, ht, ih]
    | _ =>
      simp only [buildTree, runLines, ht]
      cases directive _ (flush run b) with
      | none => rfl
      | some b' => exact ih _ _

theorem runLines_append (first rest run : List (Line × Nat)) (b : Build) :
    runLines (first ++ rest) run b = (runLines first run b).bind fun x => runLines rest x.1 x.2 := by
  induction first generalizing run b with
  | nil => rfl
  | cons line first ih =>
    rw [cons_append]
    cases ht : token line.1 with
    | text l => simp only [runLines, ht, ih]
    | _ =>
      simp only [runLines, ht]
      cases directive _ (flush run b) with
      | none => rfl
      | some b' => exact ih _ _

theorem runLines_directive {line : Line × Nat} {t : Token} (ht : token line.1 = t) (hd : ∀ l, t ≠ .text l)
    {run : List (Line × Nat)} (h : directive t (flush run b) = some b') (rest : List (Line × Nat)) :
    runLines (line :: rest) run b = runLines rest [] b' := by
  rw [runLines]
  split
  · next l hl => exact absurd (ht.symm.trans hl) (hd l)
  · rw [ht, h]
    rfl

theorem token_text {line l : Line} (h : token line = .text l) : l = line := by
  unfold token at h
  dsimp only at h
  split at h
  · have hn : ∀ (cond : Line) (t : Line → Token), (∀ c, t c ≠ .text l) → ifNamed cond t ≠ .text l := by
      intro cond t ht
      unfold ifNamed
      split
      · simp
      · exact ht cond
    split at h
    · split at h
      · simp at h
      · exact absurd h (hn _ _ (by simp))
    split at h
    · exact absurd h (hn _ _ (by simp))
    split at h
    · exact absurd h (hn _ _ (by simp))
    split at h
    · simp at h
    split at h
    · simp at h
    · exact (Token.text.inj h).symm
  · exact (Token.text.inj h).symm

/-- Behind a branch, whose node is `p`, of a block whose first node is `q`. -/
structure Inside (b : Build) (p q : Nat) (ps bs : List Nat) : Prop where
  wf : WF b
  root : b.rootNode ≠ none
  ptrs : b.ptrStack = p :: ps
  blocks : b.blockStack = q :: bs
  below : ∀ i, i ∈ ps ∨ i ∈ bs → i < q
  le : q ≤ p
  pcond : (b.node p).cond ≠ none
  qcond : (b.node q).cond ≠ none
  pfw : (b.node p).fwPtr = none
  qfw : (b.node q).fwPtr = none

theorem Inside.lt (h : Inside b p q ps bs) : p < b.size ∧ q < b.size :=
  ⟨h.wf.ptrs p (by simp [h.ptrs]), h.wf.blocks q (by simp [h.blocks])⟩

theorem Inside.le_of_mem (h : Inside b p q ps bs) (hi : i < b.size)
    (hin : i ∈ b.size :: ps ∨ i ∈ b.blockStack) : i ≤ q := by
  rw [h.blocks, mem_cons, mem_cons] at hin
  rcases hin with (rfl | hin) | rfl | hin
  · exact absurd hi (lt_irrefl _)
  · exact (h.below i (Or.inl hin)).le
  · exact le_rfl
  · exact (h.below i (Or.inr hin)).le

theorem free_allDone (hc : n.cond ≠ none) (hfw : n.fwPtr = none) :
    ({ n with tag := .NODE_ALL_DONE } : ConfNode).free = some .fw := by
  obtain ⟨cond, hc⟩ := Option.ne_none_iff_exists'.mp hc
  simp [ConfNode.free, ConfNode.tries, ConfNode.ptr, hc, hfw]

theorem free_leftDone (hc : n.cond ≠ none) (hr : n.rightPtr = none) :
    ({ n with tag := .NODE_LEFT_DONE } : ConfNode).free = some .right := by
  obtain ⟨cond, hc⟩ := Option.ne_none_iff_exists'.mp hc
  simp [ConfNode.free, ConfNode.tries, ConfNode.ptr, hc, hr]

theorem Inside.leftDone (h : Inside b p q ps bs) (hr : (b.node p).rightPtr = none) : (b.back p .NODE_LEFT_DONE).slot =
    some (.ptr p .right) ∧ WF (b.back p .NODE_LEFT_DONE) ∧ Persist b (b.back p .NODE_LEFT_DONE) := by
  have hf := free_leftDone h.pcond hr
  refine ⟨?_, back_wf h.wf h.lt.1 h.root _, back_persist (Or.inl (by simp [h.ptrs])) (by rw [hf]; simp)⟩
  rw [back_free, hf]
  rfl

/-- After `#endif` the pointers of the block are final, but the one to what follows it. -/
theorem endif_lays (h : Inside b p q ps bs) : ∃ b', directive .endif b = some b' ∧ WF b' ∧ Persist b b' ∧ b'.ptrStack =
    ps ∧ b'.blockStack = bs ∧ b'.defs = b.defs ∧ b'.size = b.size ∧ b'.slot = some (.ptr q .fw) ∧
    (∀ ℓ, b'.content ℓ = b.content ℓ) ∧ ∀ i f, q ≤ i → i < b.size → ¬ (i = q ∧ f = .fw) → Dead b' (.ptr i f) := by
  have hf := free_allDone h.qcond h.qfw
  have hq : q ∈ b.ptrStack ∨ q ∈ b.blockStack := Or.inr (by simp [h.blocks])
  have hb := back_persist hq (by rw [hf]; simp : ({ b.node q with tag := .NODE_ALL_DONE } : ConfNode).free ≠ _)
  have hs : (b.back q .NODE_ALL_DONE).slot = some (.ptr q .fw) := by rw [back_free, hf]; rfl
  have hwf := back_wf h.wf h.lt.2 h.root .NODE_ALL_DONE
  refine ⟨{ b.back q .NODE_ALL_DONE with blockStack := bs, ptrStack := ps }, ?_, ?_, ?_, rfl, rfl, rfl, rfl, hs,
    back_content b q _, ?_⟩
  · simp only [directive, h.blocks, h.ptrs]
    rfl
  · refine ⟨fun i hi => hwf.ptrs i ?_, fun i hi => hwf.blocks i ?_, hwf.prev, hwf.root⟩
    · exact h.ptrs ▸ mem_cons_of_mem _ hi
    · exact h.blocks ▸ mem_cons_of_mem _ hi
  · refine hb.restack rfl rfl rfl rfl ?_
    rintro i - (hi | hi)
    · exact Or.inl (h.ptrs ▸ mem_cons_of_mem _ hi)
    · exact Or.inr (h.blocks ▸ mem_cons_of_mem _ hi)
  · intro i f hqi hi hne
    refine ⟨i, f, rfl, hi, ?_, fun hin => absurd (h.below i hin) (by omega)⟩
    intro heq
    cases hs.symm.trans heq
    exact hne ⟨rfl, rfl⟩

def BranchEnd (p : Nat) (ℓ : Loc) : Prop := ∃ i f, ℓ = .ptr i f ∧ (i = p ∧ f = .left ∨ p < i)

theorem BranchEnd.apart (h : BranchEnd p ℓ) :
    ∃ i f, ℓ = .ptr i f ∧ p ≤ i ∧ (p < i ∨ f = .left) ∧ ¬ (i = p ∧ f = .right) ∧ ∀ q ≤ p, ¬ (i = q ∧ f = .fw) := by
  obtain ⟨i, f, rfl, hi⟩ := h
  refine ⟨i, f, rfl, by omega, hi.symm.imp_right And.right, ?_, fun q hq => ?_⟩
  · rintro ⟨rfl, rfl⟩
    simp at hi
  · rintro ⟨rfl, rfl⟩
    rcases hi with ⟨-, hf⟩ | hi
    · cases hf
    · omega

/-- The rest of a block selects `ls` as the other branch of `p`; the first branch ends where it did. -/
structure TailLays (check : Line → Bool) (b b' : Build) (p q : Nat) (ps bs : List Nat) (ℓ : Loc) (ls : List Line) :
    Prop where
  wf : WF b'
  persist : Persist b b'
  ptrs : b'.ptrStack = ps
  blocks : b'.blockStack = bs
  slot : b'.slot = some (.ptr q .fw)
  kept : ∀ i < b.size, ∀ f, ¬ (i = p ∧ f = .right) → (b'.node i).ptr f = (b.node i).ptr f
  final : ∀ F, Persist b' F → F.content ℓ = none ∧ Sel F.node check (p + 1) (F.node p).rightPtr ls ∧
    (p ≠ q → (F.node p).fwPtr = none)

def LaysText (check : Line → Bool) (lines : List (Line × Nat)) (c : Conf) : Prop :=
  ∀ run b, WF b → (∃ ℓ, b.slot = some ℓ) → ∃ run' b', runLines lines run b = some (run', b') ∧
    Lays check b (flush run' b') (run.map Prod.fst ++ c.selected check b.defs) ∧ b'.defs = c.defsAfter b.defs

def LaysTail (check : Line → Bool) (lines : List (Line × Nat)) (t : Tail) : Prop :=
  ∀ run b₀ b p q ps bs ℓ, flush run b₀ = b → Inside b p q ps bs → b.slot = some ℓ → BranchEnd p ℓ →
    (b.node p).rightPtr = none → ∃ b', runLines lines run b₀ = some ([], b') ∧
      TailLays check b b' p q ps bs ℓ (t.selected check b.defs) ∧ b'.defs = t.defsAfter b.defs

theorem laysTail_endif {line : Line × Nat} (ht : token line.1 = .endif) : LaysTail check [line] .endif := by
  intro run b0 b p q ps bs ℓ hf h hs he hr
  obtain ⟨b', hdir, hwf, hper, hptrs, hb, hdefs, hsize, hs', hc, hd⟩ := endif_lays h
  have hlt := h.lt
  have hle := h.le
  refine ⟨b', ?_, ⟨hwf, hper, hptrs, hb, hs', fun i _ f _ => hc (.ptr i f), ?_⟩, hdefs⟩
  · rw [runLines_directive ht (by simp) (hf ▸ hdir)]
    rfl
  · intro F hF
    have hf : ∀ i f, q ≤ i → i < b.size → ¬ (i = q ∧ f = .fw) → F.content (.ptr i f) = b.content (.ptr i f) :=
      fun i f hqi hi hne => (hF.dead _ (hd i f hqi hi hne)).2.trans (hc _)
    refine ⟨?_, ?_, fun hpq => ?_⟩
    · obtain ⟨i, f, rfl, hpi, -, -, hfw⟩ := he.apart
      rw [hf i f (hle.trans hpi) (slot_old h.wf hs i f rfl) (hfw q hle), slot_empty hs]
    · have hn : (F.node p).rightPtr = none := (hf p .right hle hlt.1 (by simp)).trans hr
      rw [hn]
      exact .nil
    · exact (hf p .fw hle hlt.1 (by simp [hpq])).trans h.pfw

theorem laysTail_else {last : Line × Nat} (hf : token first.1 = .else_) (hlast : token last.1 = .endif)
    (hb : LaysText check lines body) : LaysTail check (first :: (lines ++ [last])) (.else_ body) := by
  intro run b0 b p q ps bs ℓ hflu h hs he hr
  have hlt := h.lt
  have hle := h.le
  -- `#else`
  have hdir : directive .else_ (flush run b0) = some (b.back p .NODE_LEFT_DONE) := by
    simp only [directive, hflu, h.blocks, h.ptrs]
    rfl
  obtain ⟨hs2, hwf2, hper2⟩ := h.leftDone hr
  have hc2 := back_content b p .NODE_LEFT_DONE
  -- the branch
  obtain ⟨run3, b3, hrun3, hl, hd3⟩ := hb [] (b.back p .NODE_LEFT_DONE) hwf2 ⟨_, hs2⟩
  obtain ⟨ℓ₃, hs3, hw, hsel⟩ := hl.slot _ hs2
  have hkept : ∀ i < b.size, ∀ f, ¬ (i = p ∧ f = .right) → (flush run3 b3).content (.ptr i f) = b.content (.ptr i f) := by
    intro i hi f hne
    refine (hl.kept i hi f ?_).trans (hc2 (.ptr i f))
    rw [hs2]
    rintro ⟨⟩
    exact hne ⟨rfl, rfl⟩
  have hsize : b.size ≤ (flush run3 b3).size := hl.persist.size
  have hins : Inside (flush run3 b3) p q ps bs := by
    refine ⟨hl.wf, hl.persist.root h.root, hl.ptrs.trans h.ptrs, hl.blocks.trans h.blocks, h.below, hle,
      ?_, ?_, ?_, ?_⟩
    · rw [(hl.persist.node p hlt.1).1, (back_same ..).1]
      exact h.pcond
    · rw [(hl.persist.node q hlt.2).1, (back_same ..).1]
      exact h.qcond
    · exact (hkept p hlt.1 .fw (by simp)).trans h.pfw
    · exact (hkept q hlt.2 .fw (by simp)).trans h.qfw
  -- `#endif`
  obtain ⟨b', hdir', hwf, hper, hptrs, hb, hd, hsize', hs', hc, hdead⟩ := endif_lays hins
  refine ⟨b', ?_, ⟨hwf, hper2.trans (hl.persist.trans hper), hptrs, hb, hs', ?_, ?_⟩, ?_⟩
  · rw [runLines_directive hf (by simp) hdir, runLines_append, hrun3, Option.bind_some,
      runLines_directive hlast (by simp) hdir']
    rfl
  · exact fun i hi f hne => (hc (.ptr i f)).trans (hkept i hi f hne)
  · intro F hF
    have hf : ∀ i f, q ≤ i → i < (flush run3 b3).size → ¬ (i = q ∧ f = .fw) →
        F.content (.ptr i f) = (flush run3 b3).content (.ptr i f) :=
      fun i f hqi hi hne => (hF.dead _ (hdead i f hqi hi hne)).2.trans (hc _)
    refine ⟨?_, ?_, fun hpq => ?_⟩
    · obtain ⟨i, f, rfl, hpi, -, hr', hfw⟩ := he.apart
      have hi := slot_old h.wf hs i f rfl
      rw [hf i f (hle.trans hpi) (hi.trans_le hsize) (hfw q hle), hkept i hi f hr', slot_empty hs]
    · have hn : F.content ℓ₃ = none := by
        have he := slot_empty hs3
        rcases hw with rfl | ⟨k, hk, hk', rfl⟩
        · rw [hf p .right hle (hlt.1.trans_le hsize) (by simp), he]
        · have hk : b.size ≤ k := hk
          rw [hf k .fw (by omega) hk' (by omega), he]
      have hsel' := hsel F (hper.trans hF) [] (hn ▸ .nil)
      rw [append_nil, map_nil, nil_append] at hsel'
      exact hsel'.mono hlt.1
    · rw [show (F.node p).fwPtr = _ from hf p .fw hle (hlt.1.trans_le hsize) (by simp [hpq])]
      exact (hkept p hlt.1 .fw (by simp)).trans h.pfw
  · rw [hd, flush_defs, hd3]
    rfl

theorem attach_cond (hwf : WF b) (hℓ : b.slot = some ℓ) {b₂ : Build} (hsize : b₂.size = b.size + 1)
    (hn : b₂.node = (b.attach { newNode with cond := some cond }).node) (hprev : b₂.prev = some b.size)
    (hr : b₂.rootNode = (b.attach { newNode with cond := some cond }).rootNode) (hl : Lays check b₂ b' ls) :
    (∀ i < b.size, ∀ f, b.slot ≠ some (.ptr i f) → (b'.node i).ptr f = (b.node i).ptr f) ∧ (b'.node b.size).cond =
    some cond ∧ (b'.node b.size).rightPtr = none ∧ (b'.node b.size).fwPtr = none ∧ b'.content ℓ = some b.size ∧
    b'.rootNode ≠ none ∧ ∃ ℓ', b'.slot = some ℓ' ∧ BranchEnd b.size ℓ' ∧ ∀ F, Persist b' F → F.content ℓ' = none →
    Sel F.node check (b.size + 1) (F.node b.size).leftPtr ls := by
  have hs : b₂.slot = some (.ptr b.size .left) := by
    simp only [Build.slot, hprev, hn, attach_node_new]
    rfl
  have hnew : b₂.node b.size = { newNode with cond := some cond } := by rw [hn, attach_node_new]
  have hlt : b.size < b₂.size := by omega
  have hc : ∀ ℓ, b₂.content ℓ = (b.attach { newNode with cond := some cond }).content ℓ := by
    intro ℓ
    cases ℓ with
    | root => exact hr
    | ptr i f => simp only [Build.content, hn]
  have ho : ∀ f, f ≠ .left → (b'.node b.size).ptr f = none := by
    intro f hf
    rw [hl.kept b.size hlt f (by rw [hs]; simpa using hf.symm), hnew]
    cases f <;> rfl
  have hlink : b₂.content ℓ = some b.size := by
    rw [hc, content_attach hwf _ (slot_old hwf hℓ), if_pos hℓ]
  obtain ⟨ℓ', hℓ', hw, hsel⟩ := hl.slot _ hs
  refine ⟨?_, ?_, ho .right (by simp), ho .fw (by simp), ?_, ?_, ℓ', hℓ', ?_, ?_⟩
  · intro i hi f hne
    rw [hl.kept i (hi.trans hlt) f (by rw [hs]; rintro ⟨⟩; exact hi.false)]
    refine (hc (.ptr i f)).trans ?_
    rw [content_attach hwf _ (by rintro i' f' ⟨⟩; exact hi), if_neg hne]
    rfl
  · rw [(hl.persist.node b.size hlt).1, hnew]
  · exact hl.persist.filled ℓ _ (fun i f h => (slot_old hwf hℓ i f h).trans hlt) hlink
  · refine hl.persist.root ?_
    rw [hr]
    cases hold : b.rootNode <;> simp [Build.attach, hold]
  · rcases hw with rfl | ⟨k, hk, -, rfl⟩
    · exact ⟨_, _, rfl, Or.inl ⟨rfl, rfl⟩⟩
    · exact ⟨_, _, rfl, Or.inr (by omega)⟩
  · intro F hF hn
    have hbranch := hsel F hF [] (hn ▸ .nil)
    rw [append_nil, hsize] at hbranch
    exact hbranch

theorem laysTail_elif {lines' : List (Line × Nat)} {tail : Tail}
    (hf : token first.1 = .elif cond) (hb : LaysText check lines body) (ht : LaysTail check lines' tail) :
    LaysTail check (first :: (lines ++ lines')) (.elif cond body tail) := by
  intro run b0 b p q ps bs ℓ hflu h hs he hr
  have hlt := h.lt
  have hle := h.le
  -- `#elif`
  let b1 := b.back p .NODE_LEFT_DONE
  let b2 := { b1.attach { newNode with cond := some (expand b.defs cond) } with
    ptrStack := b.size :: ps, conds := addCond b.conds (expand b.defs cond) }
  have hd : directive (.elif cond) (flush run b0) = some b2 := by
    simp only [directive, hflu, h.blocks, h.ptrs]
    rfl
  obtain ⟨hs1, hwf1, hper1⟩ := h.leftDone hr
  have hwf2 : WF b2 := by
    have hwf := attach_wf hwf1 { newNode with cond := some (expand b.defs cond) }
    refine ⟨?_, hwf.blocks, hwf.prev, hwf.root⟩
    rintro i (_ | ⟨_, hi⟩)
    · exact Nat.lt_succ_self _
    · exact hwf.ptrs i (h.ptrs ▸ mem_cons_of_mem _ hi)
  have hper2 : Persist b b2 := by
    refine (hper1.trans (attach_persist hwf1 _)).restack rfl rfl rfl rfl ?_
    rintro i hi (hin | hin)
    · rcases mem_cons.mp hin with rfl | hin
      · exact absurd hi (lt_irrefl _)
      · exact Or.inl (h.ptrs ▸ mem_cons_of_mem _ hin)
    · exact Or.inr hin
  have hs2 : b2.slot = some (.ptr b.size .left) := attach_slot b1 _
  -- the branch
  obtain ⟨run3, b3, hrun3, hl, hdefs3⟩ := hb [] b2 hwf2 ⟨_, hs2⟩
  obtain ⟨hkept, hc, hr3, hfw3, hlink, hroot, ℓ₃, hs3, he3, hbranch⟩ :=
    @attach_cond check b1 _ _ _ (expand b.defs cond) hwf1 hs1 b2 rfl rfl rfl rfl hl
  have hkept3 : ∀ i < b.size, ∀ f, ¬ (i = p ∧ f = .right) → (flush run3 b3).content (.ptr i f) = b.content (.ptr i f) := by
    intro i hi f hne
    refine (hkept i hi f ?_).trans (back_content b p .NODE_LEFT_DONE (.ptr i f))
    rw [hs1]
    rintro ⟨⟩
    exact hne ⟨rfl, rfl⟩
  have hins : Inside (flush run3 b3) b.size q ps bs := by
    refine ⟨hl.wf, hroot, hl.ptrs, hl.blocks.trans h.blocks, h.below, hlt.2.le, ?_, ?_, hfw3, ?_⟩
    · rw [show ((flush run3 b3).node b.size).cond = _ from hc]
      simp
    · rw [((hper2.trans hl.persist).node q hlt.2).1]
      exact h.qcond
    · exact (hkept3 q hlt.2 .fw (by simp)).trans h.qfw
  -- the rest of the block
  obtain ⟨b', hrun', htl, hdefs'⟩ := ht run3 b3 _ b.size q ps bs ℓ₃ rfl hins hs3 he3 hr3
  have hper3 : Persist b2 b' := hl.persist.trans htl.persist
  have hsize : b.size < (flush run3 b3).size := (Nat.lt_succ_self b.size).trans_le hl.persist.size
  refine ⟨b', ?_, ⟨htl.wf, hper2.trans hper3, htl.ptrs, htl.blocks, htl.slot, ?_, ?_⟩, ?_⟩
  · rw [runLines_directive hf (by simp) hd, runLines_append, hrun3, Option.bind_some, hrun']
  · intro i hi f hne
    rw [htl.kept i (hi.trans hsize) f (by omega)]
    exact hkept3 i hi f hne
  · intro F hF
    obtain ⟨he', hsel, hfw⟩ := htl.final F hF
    have hd : ∀ i f, i < b.size → ¬ (i = p ∧ f = .right) → (i ∈ b.size :: ps ∨ i ∈ b.blockStack → f = .left) →
        F.content (.ptr i f) = b.content (.ptr i f) := by
      intro i f hi hne hleft
      have hd : Dead b2 (.ptr i f) := by
        refine ⟨i, f, rfl, hi.trans (Nat.lt_succ_self _), ?_, hleft⟩
        rw [hs2]
        rintro ⟨⟩
        exact hi.false
      obtain ⟨hd', hsame⟩ := hl.persist.dead _ hd
      rw [((htl.persist.trans hF).dead _ hd').2]
      exact hkept3 i hi f hne
    refine ⟨?_, ?_, fun hpq => ?_⟩
    · obtain ⟨i, f, rfl, -, hleft, hr', -⟩ := he.apart
      have hi := slot_old h.wf hs i f rfl
      rw [hd i f hi hr' fun hin => ?_, slot_empty hs]
      have hiq := h.le_of_mem hi hin
      rcases hleft with hpi | hleft
      · omega
      · exact hleft
    · have hptr : F.content (.ptr p .right) = some b.size :=
        (htl.persist.trans hF).filled _ _ (by rintro i f ⟨⟩; exact hlt.1.trans hsize) hlink
      rw [show (F.node p).rightPtr = _ from hptr, ← append_nil (Tail.selected ..)]
      have hcondF : (F.node b.size).cond = some (expand b.defs cond) :=
        ((htl.persist.trans hF).node b.size hsize).1.trans hc
      refine .cond hlt.1 hcondF ?_ ?_
      · have hleft := hbranch F (htl.persist.trans hF) he'
        rw [flush_defs, hdefs3] at hsel
        simp only [Tail.selected, ConfNode.branch]
        split
        · exact hleft
        · exact hsel
      · rw [hfw (by omega)]
        exact .nil
    · refine (hd p .fw hlt.1 (by simp) ?_).trans h.pfw
      intro hin
      have := h.le_of_mem hlt.1 hin
      omega
  · rw [hdefs', flush_defs, hdefs3]
    rfl

theorem laysText_block {lines' : List (Line × Nat)} {tail : Tail} (hfir : token first.1 = .if_ cond)
    (hbody : LaysText check lines body) (ht : LaysTail check lines' tail) (hn : LaysText check rest next) :
    LaysText check (first :: (lines ++ (lines' ++ rest))) (.block cond body tail next) := by
  intro run b0 hwf0 hslot0
  have hf := @flush_lays check _ hwf0 run
  obtain ⟨ℓ₀, hℓ₀⟩ := hslot0
  obtain ⟨ℓ, hℓ, -, -⟩ := hf.slot ℓ₀ hℓ₀
  have hwf := hf.wf
  have hd0 := flush_defs run b0
  generalize hb : flush run b0 = b at *
  -- `#if`
  let b2 := { b.attach { newNode with cond := some (expand b.defs cond) } with
    blockStack := b.size :: b.blockStack, ptrStack := b.size :: b.ptrStack
    conds := addCond b.conds (expand b.defs cond) }
  have hdir : directive (.if_ cond) (flush run b0) = some b2 := by
    rw [hb]
    rfl
  have hwf2 : WF b2 := by
    have hwf' := attach_wf hwf { newNode with cond := some (expand b.defs cond) }
    refine ⟨?_, ?_, hwf'.prev, hwf'.root⟩
    · rintro i (_ | ⟨_, hi⟩)
      · exact Nat.lt_succ_self _
      · exact hwf'.ptrs i hi
    · rintro i (_ | ⟨_, hi⟩)
      · exact Nat.lt_succ_self _
      · exact hwf'.blocks i hi
  have hper2 : Persist b b2 := by
    refine (attach_persist hwf _).restack rfl rfl rfl rfl ?_
    rintro i hi (hin | hin)
    all_goals
      rcases mem_cons.mp hin with rfl | hin
      · exact absurd hi (lt_irrefl _)
    · exact Or.inl hin
    · exact Or.inr hin
  have hslot2 : b2.slot = some (.ptr b.size .left) := attach_slot b _
  have hd2 : b2.defs = b0.defs := hd0
  -- the first branch
  obtain ⟨run3, b3, hr3, hl, hd3⟩ := hbody [] b2 hwf2 ⟨_, hslot2⟩
  obtain ⟨hkept, hc, hrig3, hfw3, hlink, hroot, ℓ₃, hslot3, he3, hbranch⟩ :=
    @attach_cond check b _ _ _ (expand b.defs cond) hwf hℓ b2 rfl rfl rfl rfl hl
  have hins : Inside (flush run3 b3) b.size b.size b.ptrStack b.blockStack := by
    refine ⟨hl.wf, hroot, hl.ptrs, hl.blocks, ?_, le_rfl, ?_, ?_, hfw3, hfw3⟩
    · rintro i (hi | hi)
      · exact hwf.ptrs i hi
      · exact hwf.blocks i hi
    · simp [hc]
    · simp [hc]
  have hs : b.size < (flush run3 b3).size := (Nat.lt_succ_self b.size).trans_le hl.persist.size
  -- the others
  obtain ⟨b4, hr4, htl, hd4⟩ :=
    ht run3 b3 _ b.size b.size b.ptrStack b.blockStack ℓ₃ rfl hins hslot3 he3 hrig3
  rw [flush_defs, hd3] at hd4
  have hb : Lays check b b4 (if check (expand b.defs cond) then body.selected check b.defs
      else tail.selected check (body.defsAfter b.defs)) := by
    refine ⟨htl.wf, hper2.trans (hl.persist.trans htl.persist), htl.ptrs, htl.blocks, ?_, ?_⟩
    · intro i hi f hne
      rw [htl.kept i (hi.trans hs) f (by omega)]
      exact hkept i hi f hne
    · intro ℓ' hℓ'
      obtain rfl : ℓ = ℓ' := Option.some.inj (hℓ.symm.trans hℓ')
      refine ⟨_, htl.slot, Or.inr ⟨b.size, le_rfl, hs.trans_le htl.persist.size, rfl⟩, ?_⟩
      intro F hF rest' hrest'
      have hper := htl.persist.trans hF
      obtain ⟨he', hsel, -⟩ := htl.final F hF
      have hptr : F.content ℓ = some b.size :=
        hper.filled _ _ (fun i f h => (slot_old hwf hℓ i f h).trans hs) hlink
      rw [hptr]
      refine .cond le_rfl ((hper.node b.size hs).1.trans hc) ?_ (hrest'.mono (hs.trans_le htl.persist.size))
      have hleft := hbranch F hper he'
      rw [flush_defs, hd3] at hsel
      simp only [ConfNode.branch]
      split
      · exact hleft
      · exact hsel
  -- what follows
  obtain ⟨ℓ₄, hℓ₄, -, -⟩ := hb.slot ℓ hℓ
  obtain ⟨run5, b5, hr5, hl5, hd5⟩ := hn [] b4 htl.wf ⟨ℓ₄, hℓ₄⟩
  refine ⟨run5, b5, ?_, ?_, ?_⟩
  · rw [runLines_directive hfir (by simp) hdir, runLines_append, hr3, Option.bind_some, runLines_append, hr4,
      Option.bind_some, hr5]
  · have ha := hf.trans (hb.trans hl5 ⟨ℓ, hℓ⟩) ⟨ℓ₀, hℓ₀⟩
    rw [map_nil, nil_append, hd4, hd2, hd0] at ha
    rwa [Conf.selected]
  · rw [hd5, hd4, hd2, Conf.defsAfter]

theorem laysText_done : LaysText check [] .done := by
  intro run b hwf _
  refine ⟨run, b, rfl, ?_, rfl⟩
  rw [Conf.selected, append_nil]
  exact flush_lays hwf run

theorem laysText_text (hf : token first.1 = .text l) (hn : LaysText check rest next) :
    LaysText check (first :: rest) (.text l next) := by
  intro run b hwf hs
  obtain ⟨run', b', hr, hl, hd⟩ := hn (run ++ [first]) b hwf hs
  refine ⟨run', b', ?_, ?_, hd⟩
  · rw [runLines, hf]
    exact hr
  · rw [token_text hf, Conf.selected]
    simpa using hl

theorem laysText_define (hfir : token first.1 = .define name cond) (hn : LaysText check rest next) :
    LaysText check (first :: rest) (.define name cond next) := by
  intro run b hwf hs
  have hf := @flush_lays check _ hwf run
  obtain ⟨ℓ, hℓ⟩ := hs
  obtain ⟨ℓ', hℓ', -, -⟩ := hf.slot ℓ hℓ
  let b2 := { flush run b with defs := addDef (flush run b).defs name cond }
  have hd2 : b2.defs = addDef b.defs name cond := by rw [← flush_defs run b]
  have hwf2 : WF b2 := ⟨hf.wf.ptrs, hf.wf.blocks, hf.wf.prev, hf.wf.root⟩
  have hdef : Lays check (flush run b) b2 [] :=
    ⟨hwf2, (Persist.refl _).restack rfl rfl rfl rfl fun _ _ h => h, rfl, rfl, fun _ _ _ _ => rfl,
      fun ℓ hℓ => ⟨ℓ, hℓ, Or.inl rfl, fun _ _ _ h => h⟩⟩
  obtain ⟨run', b', hr, hl, hd⟩ := hn [] b2 hwf2 ⟨ℓ', hℓ'⟩
  refine ⟨run', b', ?_, ?_, ?_⟩
  · rw [runLines_directive hfir (by simp) rfl]
    exact hr
  · have ha := hf.trans (hdef.trans hl ⟨ℓ', hℓ'⟩) ⟨ℓ, hℓ⟩
    rw [hd2, nil_append, map_nil, nil_append] at ha
    rwa [Conf.selected]
  · rw [hd, hd2, Conf.defsAfter]

mutual

/-- A text with well nested directives is laid out as a tree that selects what it should. -/
theorem Conf.lays : (c : Conf) → {lines : List (Line × Nat)} → lines.map (fun x => token x.1) = c.tokens →
    LaysText check lines c
  | .done, lines, h => by
    rw [Conf.tokens, map_eq_nil_iff] at h
    exact h ▸ laysText_done
  | .text l next, lines, h => by
    obtain ⟨first, rest, rfl, hf, hr⟩ := map_eq_cons_iff.mp h
    exact laysText_text hf (Conf.lays next hr)
  | .define name cond next, lines, h => by
    obtain ⟨first, rest, rfl, hf, hr⟩ := map_eq_cons_iff.mp h
    exact laysText_define hf (Conf.lays next hr)
  | .block cond body tail next, lines, h => by
    obtain ⟨first, rest, rfl, hf, hr⟩ := map_eq_cons_iff.mp h
    obtain ⟨lines1, rest, rfl, hb, hr⟩ := map_eq_append_iff.mp hr
    obtain ⟨lines2, rest, rfl, ht, hn⟩ := map_eq_append_iff.mp hr
    exact laysText_block hf (Conf.lays body hb) (Tail.lays tail ht) (Conf.lays next hn)

theorem Tail.lays : (t : Tail) → {lines : List (Line × Nat)} → lines.map (fun x => token x.1) = t.tokens →
    LaysTail check lines t
  | .endif, lines, h => by
    obtain ⟨line, rest, rfl, hl, hr⟩ := map_eq_cons_iff.mp h
    rw [map_eq_nil_iff] at hr
    exact hr ▸ laysTail_endif hl
  | .else_ body, lines, h => by
    obtain ⟨first, rest, rfl, hf, hr⟩ := map_eq_cons_iff.mp h
    obtain ⟨lines1, rest, rfl, hb, hr⟩ := map_eq_append_iff.mp hr
    obtain ⟨last, rest, rfl, hlast, hr⟩ := map_eq_cons_iff.mp hr
    rw [map_eq_nil_iff] at hr
    exact hr ▸ laysTail_else hf hlast (Conf.lays body hb)
  | .elif cond body tail, lines, h => by
    obtain ⟨first, rest, rfl, hf, hr⟩ := map_eq_cons_iff.mp h
    obtain ⟨lines1, rest, rfl, hb, ht⟩ := map_eq_append_iff.mp hr
    exact laysTail_elif hf (Conf.lays body hb) (Tail.lays tail ht)

end

end OpenLava.Wconf

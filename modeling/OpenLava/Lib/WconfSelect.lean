import OpenLava.Segments
import OpenLava.Lib.WconfBuild

/-!
# The lines of a configuration file

`ls_getconf` and the calls of `readNextLine` that follow it, for every text with well nested directives and all values
of its conditions.
-/

namespace OpenLava.Wconf

open Function List

/-- A line as `getNextLineD_` gives it: white space is blanks, with none at the end but for a first one. -/
def shown (line : Line) : Line := (line.map blanked).take (lastPos (line.map blanked) + 1)

def Sound (b : Build) : Prop :=
  ∀ i, (b.node i).tag ≠ .NODE_PASED ∧ ∀ cond, (b.node i).cond = some cond → cond ∈ b.conds

theorem linkNode_tag (n : ConfNode) (j : Nat) : (linkNode n j).tag = n.tag := by
  unfold linkNode
  split
  · next f _ => cases f <;> rfl
  · rfl

theorem Sound.attach (h : Sound b) (hcon : b.conds ⊆ conds) (ht : n.tag = .zero)
    (hcond : ∀ cond, n.cond = some cond → cond ∈ conds) : Sound { b.attach n with conds := conds } := by
  intro i
  have hold : ∀ i, (b.node i).tag ≠ .NODE_PASED ∧ ∀ cond, (b.node i).cond = some cond → cond ∈ conds :=
    fun i => ⟨(h i).1, fun cond hc => hcon ((h i).2 cond hc)⟩
  by_cases hi : i = b.size
  · subst hi
    rw [show ({ b.attach n with conds := conds } : Build).node b.size = n from attach_node_new b n, ht]
    exact ⟨by simp, hcond⟩
  · simp only [Build.attach, update_of_ne hi]
    cases b.prev with
    | none => exact hold i
    | some prev =>
      dsimp only
      by_cases hprev : i = prev
      · subst hprev
        rw [update_self, linkNode_tag, (linkNode_same ..).1]
        exact hold i
      · rw [update_of_ne hprev]
        exact hold i

theorem Sound.setTag (h : Sound b) (i : Nat) (ht : tag ≠ .NODE_PASED) : Sound (b.setTag i tag) := by
  intro k
  by_cases hk : k = i
  · subst hk
    simp only [Build.setTag, update_self]
    exact ⟨ht, (h k).2⟩
  · simp only [Build.setTag, update_of_ne hk]
    exact h k

theorem subset_addCond (conds : List Line) (cond : Line) : conds ⊆ addCond conds cond := by
  unfold addCond
  split
  · exact List.Subset.refl _
  · exact subset_append_left _ _

theorem mem_addCond (conds : List Line) (cond : Line) : cond ∈ addCond conds cond := by
  unfold addCond
  split
  · next h => exact contains_iff_mem.mp h
  · simp

theorem flush_sound (h : Sound b) (run : List (Line × Nat)) : Sound (flush run b) := by
  cases run with
  | nil => exact h
  | cons first run => exact h.attach (List.Subset.refl _) rfl (by simp [newNode])

theorem directive_sound (h : Sound b) (hd : directive t b = some b') : Sound b' := by
  cases t with
  | text l =>
    cases hd
    exact h
  | bad => simp [directive] at hd
  | define name cond =>
    cases hd
    exact h
  | if_ cond =>
    cases hd
    exact h.attach (subset_addCond ..) rfl (by rintro c ⟨⟩; exact mem_addCond ..)
  | elif cond =>
    simp only [directive] at hd
    split at hd
    · next prev ptrs _ _ =>
      cases hd
      have hb : Sound (b.back prev .NODE_LEFT_DONE) := h.setTag prev (by simp)
      exact hb.attach (n := { newNode with cond := some (expand b.defs cond) }) (subset_addCond ..) rfl
        (by rintro c ⟨⟩; exact mem_addCond ..)
    · simp at hd
  | else_ =>
    simp only [directive] at hd
    split at hd
    · cases hd
      exact h.setTag _ (by simp)
    · simp at hd
  | endif =>
    simp only [directive] at hd
    split at hd
    · cases hd
      exact h.setTag _ (by simp)
    · simp at hd

theorem buildTree_sound {lines run : List (Line × Nat)} {b b' : Build} (h : Sound b)
    (hb : buildTree lines run b = some b') : Sound b' := by
  induction lines generalizing run b with
  | nil =>
    cases hb
    exact flush_sound h run
  | cons line rest ih =>
    cases ht : token line.1 with
    | text l =>
      simp only [buildTree, ht] at hb
      exact ih h hb
    | _ =>
      simp only [buildTree, ht] at hb
      obtain ⟨b1, hd, hr⟩ := Option.bind_eq_some_iff.mp hb
      exact ih (directive_sound (flush_sound h run) hd) hr

theorem checkCond_of_mem {cond : Line} (h : cond ∈ conds) (value : Line → Bool) :
    checkCond conds (conds.map value) cond = value cond := by
  induction conds with
  | nil => simp at h
  | cons c conds ih =>
    by_cases hc : cond = c
    · simp [checkCond, hc]
    · have hmem : cond ∈ conds := by simpa [hc] using h
      have hne : (cond == c) = false := by simpa using hc
      rw [← ih hmem]
      simp [checkCond, lookup_cons, hne]

theorem Sel.congr (hs : ∀ i cond, (F i).cond = some cond → check' cond = check cond)
    (h : Sel F check lo p ls) : Sel F check' lo p ls := by
  induction h with
  | nil => exact .nil
  | text hlo hc _ ih => exact .text hlo hc ih
  | cond hlo hc _ _ ihbranch ihfw => exact .cond hlo hc (by rw [hs _ _ hc]; exact ihbranch) ihfw

theorem init_wf : WF .init := ⟨by simp [Build.init], by simp [Build.init], by simp [Build.init], fun _ => rfl⟩

theorem init_sound : Sound .init := fun _ => ⟨by simp [Build.init, newNode], by simp [Build.init, newNode]⟩

/-- `readNextLine` returns the lines of the selected branches, by the first `#define` of a macro. -/
theorem conf_lines (text : List Char) (c : Conf) (hnested : (confLines text).map (fun x => token x.1) = c.tokens)
    (value : Line → Bool) : ∃ conf, ls_getconf text = some conf ∧ ∀ k, ∃ n, ∀ fuel, n ≤ fuel →
      readCalls (checkCond conf.conds (conf.conds.map value)) fuel ((c.selected value []).length + k) conf.reader =
        some ((c.selected value []).map some ++ replicate k none) := by
  obtain ⟨run, b, hr, hl, -⟩ := @Conf.lays value c _ hnested [] .init init_wf ⟨.root, rfl⟩
  obtain ⟨ℓ, hℓ, -, hsel⟩ := hl.slot .root rfl
  have hb : buildTree (confLines text) [] .init = some (flush run b) := by
    rw [buildTree_eq, hr]
    rfl
  have hs := buildTree_sound init_sound hb
  have hr := hsel _ (.refl _) [] (slot_empty hℓ ▸ .nil)
  rw [append_nil, map_nil, nil_append] at hr
  refine ⟨⟨(flush run b).node, (flush run b).rootNode, (flush run b).conds⟩, ?_, ?_⟩
  · have hc : (flush run b).blockStack = [] := hl.blocks
    rw [ls_getconf, hb, Option.bind_some, if_pos hc]
  · have hche : ∀ i cond, ((flush run b).node i).cond = some cond →
        checkCond (flush run b).conds ((flush run b).conds.map value) cond = value cond :=
      fun i cond hc => checkCond_of_mem ((hs i).2 cond hc) value
    refine readCalls_root (hr.congr hche) ⟨rfl, rfl, rfl, fun i => ⟨_, rfl⟩, fun i => ?_⟩
    exact iff_of_false (hs i).1 not_mem_nil

def branchesText : List Char := "a\n#if A\n#elif B # or else\nb\n  #ELSE\nc\n#endif\nd\n".toList

def branchesConf : Conf :=
  .text ['a'] (.block ['A'] .done (.elif ['B'] (.text ['b'] .done) (.else_ (.text ['c'] .done))) (.text ['d'] .done))

theorem conf_lines_branches : (confLines branchesText).map (fun x => token x.1) = branchesConf.tokens ∧
      ∃ conf, ls_getconf branchesText = some conf ∧ ∀ k, ∃ n, ∀ fuel, n ≤ fuel →
        readCalls (checkCond conf.conds (conf.conds.map fun c => c = ['B'])) fuel (3 + k) conf.reader =
          some ([some ['a'], some ['b'], some ['d']] ++ replicate k none) := by
  have hn : (confLines branchesText).map (fun x => token x.1) = branchesConf.tokens := by decide +kernel
  exact ⟨hn, conf_lines branchesText branchesConf hn fun c => c = ['B']⟩

mutual

/-- The usual meaning: a `#define` counts where it is selected, in place of earlier ones. -/
def Conf.usual (value : Line → Bool) : Conf → List (Line × Line) → List Line × List (Line × Line)
  | .done, defs => ([], defs)
  | .text line next, defs => ((line :: (next.usual value defs).1), (next.usual value defs).2)
  | .define name cond next, defs => next.usual value ((name, expand defs cond) :: defs)
  | .block cond body tail next, defs =>
    let branch := if value (expand defs cond) then body.usual value defs else tail.usual value defs
    ((branch.1 ++ (next.usual value branch.2).1), (next.usual value branch.2).2)

def Tail.usual (value : Line → Bool) : Tail → List (Line × Line) → List Line × List (Line × Line)
  | .endif, defs => ([], defs)
  | .else_ body, defs => body.usual value defs
  | .elif cond body tail, defs => if value (expand defs cond) then body.usual value defs else tail.usual value defs

end

def sampleText : List Char := "#if A\n#define M B\n#endif\n#if M\nx\n#endif\n".toList

def sampleConf : Conf :=
  .block ['A'] (.define ['M'] ['B'] .done) .endif (.block ['M'] (.text ['x'] .done) .endif .done)

/-- A macro defined in a branch that is not selected selects another one. -/
theorem conf_macro : (confLines sampleText).map (fun x => token x.1) = sampleConf.tokens ∧
      ((ls_getconf sampleText).bind fun conf =>
          readCalls (checkCond conf.conds (conf.conds.map fun c => c = ['B'])) 20 2 conf.reader) =
        some [some ['x'], none] ∧
      (sampleConf.usual (fun c => c = ['B']) []).1 = [] := by
  decide +kernel

end OpenLava.Wconf

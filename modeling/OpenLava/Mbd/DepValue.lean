import OpenLava.Mbd.DepGrouping

/-!
# When the grouping is that of the grammar

A conjunction of three, or one whose last part has a `!`, keeps a `&&` waiting when `||` follows it, and two `!` in
front of one operand leave one of them waiting for what follows.
-/

namespace OpenLava.DepCond

open List

def ofBool : Bool → Value
  | false => .DP_FALSE
  | true => .DP_TRUE

def DptNode.truth (truth : JobNode → Bool) : DptNode → Bool
  | .job node => truth node
  | .not t => !t.truth truth
  | .and l r => l.truth truth && r.truth truth
  | .or l r => l.truth truth || r.truth truth
  | .left_ _ _ => false

theorem evalDepCond_ofBool (truth : JobNode → Bool) (t : DptNode) :
    evalDepCond (fun node => ofBool (truth node)) t = ofBool (t.truth truth) := by
  induction t with
  | job node => rfl
  | not t ih =>
    simp only [evalDepCond, DptNode.truth, ih]
    cases t.truth truth <;> rfl
  | and l r ihl ihr =>
    simp only [evalDepCond, DptNode.truth, ihl, ihr]
    cases l.truth truth <;> cases r.truth truth <;> rfl
  | or l r ihl ihr =>
    simp only [evalDepCond, DptNode.truth, ihl, ihr]
    cases l.truth truth <;> cases r.truth truth <;> rfl
  | left_ l r _ _ => rfl

/-- `k` negations. -/
def flips (k : Nat) (b : Bool) : Bool := if k % 2 = 0 then b else !b

theorem flips_even (h : k % 2 = 0) (b : Bool) : flips k b = b := if_pos h

theorem flips_odd (h : ¬ k % 2 = 0) (b : Bool) : flips k b = !b := if_neg h

theorem flips_succ (k : Nat) (b : Bool) : flips (k + 1) b = !flips k b := by
  by_cases h : k % 2 = 0
  · rw [flips_even h, flips_odd (by omega)]
  · rw [flips_odd h, flips_even (by omega), Bool.not_not]

theorem flips_not (k : Nat) (b : Bool) : flips k (!b) = !flips k b := by
  by_cases h : k % 2 = 0
  · rw [flips_even h, flips_even h]
  · rw [flips_odd h, flips_odd h]

section

variable (truth : JobNode → Bool)

theorem truth_nots (k : Nat) (t : DptNode) : (nots k t).truth truth = flips k (t.truth truth) := by
  induction k with
  | zero => rfl
  | succ k ih => rw [nots, DptNode.truth, ih, flips_succ]

def operand (x : Option DptNode) : Bool := x.elim true (DptNode.truth truth)

@[simp] theorem operand_none : operand truth none = true := rfl

@[simp] theorem operand_some (x : DptNode) : operand truth (some x) = x.truth truth := rfl

theorem truth_attach (x : Option DptNode) (t : DptNode) :
    (attach x t).truth truth = (operand truth x && t.truth truth) := by
  cases x with
  | none => rfl
  | some x => exact Bool.and_comm _ _

theorem bound_fst (r : Nat × DptNode) : (bound r).1 = r.1 - 1 := by
  obtain ⟨k, t⟩ := r
  cases k <;> rfl

theorem truth_nots_bound (r : Nat × DptNode) : (nots r.1 r.2).truth truth = flips (r.1 - 1) ((bound r).2.truth truth) := by
  obtain ⟨k, t⟩ := r
  cases k with
  | zero => rfl
  | succ k => rw [truth_nots, flips_succ, ← flips_not]; rfl

theorem truth_beforeOr_none (d : DptNode) (r : Nat × DptNode) :
    (beforeOr none d r).truth truth = flips (r.1 - 1) (d.truth truth || (bound r).2.truth truth) := by
  obtain ⟨k, t⟩ := r
  cases k with
  | zero => rfl
  | succ k => exact truth_nots truth k _

end

theorem Conj.read_waiting (leaf : α → DptNode) (c : Conj α) (x : Option DptNode) :
    c.read leaf x none = attach x (c.read leaf none none) := by
  cases c <;> rfl

section

variable {α : Type}

def Negation.bangs : Negation α → Nat
  | .primary _ => 0
  | .not n => n.bangs + 1

/-- No `!` or an odd number of them. -/
def Negation.light (n : Negation α) : Bool := (n.bangs - 1) % 2 = 0

mutual

/-- Operands before an operator have no `!` or an odd number; `||` follows at most two, the second
bare. -/
def Primary.plain : Primary α → Bool
  | .cond _ => true
  | .paren d => d.plain

def Negation.plain : Negation α → Bool
  | .primary p => p.plain
  | .not n => n.plain

def Conj.plain : Conj α → Bool
  | .single n => n.plain
  | .and n c => n.light && n.plain && c.plain

def Conj.plainBeforeOr : Conj α → Bool
  | .single n => n.light && n.plain
  | .and n (.single m) => n.light && n.plain && m.bangs == 0 && m.plain
  | .and _ (.and _ _) => false

def Disj.plain : Disj α → Bool
  | .single c => c.plain
  | .or c d => c.plainBeforeOr && d.plain

end

mutual

def Primary.shape : Primary α → Primary Unit
  | .cond _ => .cond ()
  | .paren d => .paren d.shape

def Negation.shape : Negation α → Negation Unit
  | .primary p => .primary p.shape
  | .not n => .not n.shape

def Conj.shape : Conj α → Conj Unit
  | .single n => .single n.shape
  | .and n c => .and n.shape c.shape

def Disj.shape : Disj α → Disj Unit
  | .single c => .single c.shape
  | .or c d => .or c.shape d.shape

end

theorem Negation.bangs_shape (n : Negation α) : n.shape.bangs = n.bangs := by
  cases n with
  | primary p => rfl
  | not n => simp [Negation.shape, Negation.bangs, n.bangs_shape]

theorem Negation.read_fst (leaf : α → DptNode) (n : Negation α) : (n.read leaf).1 = n.bangs := by
  cases n with
  | primary p => rfl
  | not n => simp [Negation.read, Negation.bangs, n.read_fst leaf]

end

section

mutual

theorem Primary.plain_shape (p : Primary α) : p.shape.plain = p.plain := by
  cases p with
  | cond c => rfl
  | paren d => exact d.plain_shape

theorem Negation.plain_shape (n : Negation α) : n.shape.plain = n.plain := by
  cases n with
  | primary p => exact p.plain_shape
  | not n => exact n.plain_shape

theorem Conj.plain_shape (c : Conj α) : c.shape.plain = c.plain := by
  cases c with
  | single n => exact n.plain_shape
  | and n c => simp [Conj.shape, Conj.plain, Negation.light, n.bangs_shape, n.plain_shape, c.plain_shape]

theorem Conj.plainBeforeOr_shape (c : Conj α) : c.shape.plainBeforeOr = c.plainBeforeOr := by
  cases c with
  | single n => simp [Conj.shape, Conj.plainBeforeOr, Negation.light, n.bangs_shape, n.plain_shape]
  | and n c =>
    cases c with
    | single m =>
      simp [Conj.shape, Conj.plainBeforeOr, Negation.light, n.bangs_shape, n.plain_shape, m.bangs_shape, m.plain_shape]
    | and => rfl

theorem Disj.plain_shape (d : Disj α) : d.shape.plain = d.plain := by
  cases d with
  | single c => exact c.plain_shape
  | or c d => simp [Disj.shape, Disj.plain, c.plainBeforeOr_shape, d.plain_shape]

end

end

/-! ### Both values of every shape

An expression of any shape can be given conditions with which its value and the value of its tree are what one wants. -/

section

variable {α : Type} {truth : JobNode → Bool} {leaf : α → DptNode} {tv : α → Bool}

def LeafValues (truth : JobNode → Bool) (leaf : α → DptNode) (tv : α → Bool) : Prop :=
  ∀ c, (leaf c).truth truth = tv c

theorem truth_bound (r : Nat × DptNode) :
    (bound r).2.truth truth = if r.1 = 0 then r.2.truth truth else !r.2.truth truth := by
  obtain ⟨k, t⟩ := r
  cases k <;> rfl

theorem Conj.truth_read_and (n : Negation α) (c : Conj α) (x d : Option DptNode) :
    ((Conj.and n c).read leaf x d).truth truth =
      (operand truth x && flips (n.bangs - 1) ((c.read leaf (some (bound (n.read leaf)).2) d).truth truth)) := by
  rw [Conj.read, truth_attach, truth_nots, bound_fst, n.read_fst]

theorem truth_beforeOr_false (x : Option DptNode) (hd : d.truth truth = false) (r : Nat × DptNode) :
    (beforeOr x d r).truth truth = (operand truth x && (nots r.1 r.2).truth truth) := by
  obtain ⟨k, t⟩ := r
  cases k with
  | zero => simp [beforeOr, DptNode.truth, hd, truth_attach, nots]
  | succ k => simp [beforeOr, DptNode.truth, hd, truth_attach, truth_nots, flips_not, flips_succ]

theorem exists_bound
    (h : ∀ b, ∃ m : Negation α, m.shape = n ∧ (m.read leaf).2.truth truth = b ∧ m.value tv = flips n.bangs b) (z : Bool) :
    ∃ m : Negation α, m.shape = n ∧ (bound (m.read leaf)).2.truth truth = z ∧ m.value tv = flips (n.bangs - 1) z := by
  obtain ⟨m, rfl, hr, hv⟩ := h (if n.bangs = 0 then z else !z)
  refine ⟨m, rfl, ?_, ?_⟩
  · rw [truth_bound, m.read_fst, hr, m.bangs_shape]
    split <;> simp
  · rw [hv]
    cases hb : m.shape.bangs with
    | zero => rfl
    | succ k => simp [flips_succ, flips_not]

theorem Negation.truth_read {n : Negation α} (h : (nots (n.read leaf).1 (n.read leaf).2).truth truth = n.value tv)
    (hl : n.light = true) : (bound (n.read leaf)).2.truth truth = n.value tv := by
  have he : (n.bangs - 1) % 2 = 0 := by simpa [Negation.light] using hl
  rwa [truth_nots_bound, n.read_fst, flips_even he] at h

variable (hleaf : LeafValues truth leaf tv) (hsurj : Function.Surjective tv)

set_option linter.unusedSectionVars false

include hleaf hsurj

mutual

theorem Primary.exists_value (p : Primary Unit)
    (b : Bool) : ∃ q : Primary α, q.shape = p ∧ (q.read leaf).truth truth = b ∧ q.value tv = b := by
  cases p with
  | cond u =>
    obtain ⟨c, rfl⟩ := hsurj b
    exact ⟨.cond c, rfl, hleaf c, rfl⟩
  | paren d =>
    obtain ⟨e, rfl, hr, hv⟩ := d.exists_value b
    exact ⟨.paren e, rfl, hr, hv⟩

theorem Negation.exists_operand (n : Negation Unit) (b : Bool) : ∃ m : Negation α, m.shape = n ∧
    (m.read leaf).2.truth truth = b ∧ m.value tv = flips n.bangs b := by
  cases n with
  | primary p =>
    obtain ⟨q, rfl, hr, hv⟩ := p.exists_value b
    exact ⟨.primary q, rfl, hr, hv⟩
  | not n =>
    obtain ⟨m, rfl, hr, hv⟩ := n.exists_operand b
    exact ⟨.not m, rfl, hr, by rw [Negation.value, hv, Negation.bangs, flips_succ]⟩

theorem Conj.exists_value (c : Conj Unit) (b : Bool) : ∃ e : Conj α, e.shape = c ∧ e.value tv = b ∧
      (∀ x, (e.read leaf x none).truth truth = (operand truth x && b)) ∧
      ∀ x d, d.truth truth = false → (e.read leaf x (some d)).truth truth = (operand truth x && b) := by
  cases c with
  | single n =>
    obtain ⟨m, rfl, hr, hv⟩ := n.exists_operand (flips n.bangs b)
    have hf : flips m.shape.bangs (flips m.shape.bangs b) = b := by
      unfold flips
      split <;> simp
    have hn : (nots (m.read leaf).1 (m.read leaf).2).truth truth = b := by
      rw [truth_nots, m.read_fst, hr, ← m.bangs_shape, hf]
    refine ⟨.single m, rfl, by rw [Conj.value, hv, hf], ?_, ?_⟩
    · intro x
      rw [Conj.read, truth_attach, hn]
    · intro x d hd
      rw [Conj.read, truth_beforeOr_false x hd, hn]
  | and n c =>
    -- with an odd number of `!` waiting, a false operand makes the whole true and a true one makes it false
    obtain ⟨z, b', ha, hw⟩ : ∃ z b', (flips (n.bangs - 1) z && b') = b ∧ flips (n.bangs - 1) (z && b') = b := by
      by_cases he : (n.bangs - 1) % 2 = 0
      · exact ⟨true, b, by simp [flips_even he], by simp [flips_even he]⟩
      · exact ⟨!b, true, by simp [flips_odd he], by simp [flips_odd he]⟩
    obtain ⟨m, rfl, hb, hv⟩ := exists_bound (n.exists_operand) z
    obtain ⟨e, rfl, hv', hr, hr'⟩ := c.exists_value b'
    rw [m.bangs_shape] at ha hw hv
    refine ⟨.and m e, rfl, by rw [Conj.value, hv, hv', ha], ?_, ?_⟩
    · intro x
      rw [Conj.truth_read_and, hr, operand_some, hb, hw]
    · intro x d hd
      rw [Conj.truth_read_and, hr' _ d hd, operand_some, hb, hw]

theorem Disj.exists_value (d : Disj Unit)
    (b : Bool) : ∃ e : Disj α, e.shape = d ∧ (e.read leaf).truth truth = b ∧ e.value tv = b := by
  cases d with
  | single c =>
    obtain ⟨e, rfl, hv, hr, -⟩ := c.exists_value b
    exact ⟨.single e, rfl, hr none, hv⟩
  | or c d =>
    obtain ⟨e, rfl, hv, -, hr⟩ := c.exists_value b
    obtain ⟨g, rfl, hr', hv'⟩ := d.exists_value false
    exact ⟨.or e g, rfl, hr none _ hr', by rw [Disj.value, hv, hv', Bool.or_false]⟩

end

omit hsurj

mutual

theorem Primary.truth_plain (p : Primary α) (h : p.plain = true) : (p.read leaf).truth truth = p.value tv := by
  cases p with
  | cond c => exact hleaf c
  | paren d => exact d.truth_plain h

theorem Negation.truth_plain (n : Negation α) (h : n.plain = true) :
    (nots (n.read leaf).1 (n.read leaf).2).truth truth = n.value tv := by
  cases n with
  | primary p => exact p.truth_plain h
  | not n =>
    have hn := n.truth_plain h
    rw [Negation.read, Negation.value, ← hn]
    rfl

theorem Conj.truth_plain (c : Conj α) (h : c.plain = true) : (c.read leaf none none).truth truth = c.value tv := by
  cases c with
  | single n => exact n.truth_plain h
  | and n c =>
    simp only [Conj.plain, Bool.and_eq_true] at h
    have hn := Negation.truth_read (n.truth_plain h.1.2) h.1.1
    have he : (n.bangs - 1) % 2 = 0 := by simpa [Negation.light] using h.1.1
    rw [Conj.truth_read_and, c.read_waiting, truth_attach, operand_some, hn, c.truth_plain h.2, flips_even he]
    rfl

theorem Conj.truth_plainBeforeOr (c : Conj α) (h : c.plainBeforeOr = true)
    (d : DptNode) : (c.read leaf none (some d)).truth truth = (c.value tv || d.truth truth) := by
  cases c with
  | single n =>
    simp only [Conj.plainBeforeOr, Bool.and_eq_true] at h
    have hn := Negation.truth_read (n.truth_plain h.2) h.1
    have he : (n.bangs - 1) % 2 = 0 := by simpa [Negation.light] using h.1
    rw [Conj.read, truth_beforeOr_none, hn, n.read_fst, flips_even he, Bool.or_comm]
    rfl
  | and n c =>
    cases c with
    | and => simp [Conj.plainBeforeOr] at h
    | single m =>
      simp only [Conj.plainBeforeOr, Bool.and_eq_true, beq_iff_eq] at h
      obtain ⟨⟨⟨hl, hpla⟩, hnone⟩, hpla'⟩ := h
      have hn := Negation.truth_read (n.truth_plain hpla) hl
      have he : (n.bangs - 1) % 2 = 0 := by simpa [Negation.light] using hl
      have hm := m.truth_plain hpla'
      rw [Conj.truth_read_and, flips_even he, Conj.read]
      have hr : m.read leaf = (0, (m.read leaf).2) := Prod.ext (by rw [m.read_fst, hnone]) rfl
      rw [hr] at hm ⊢
      simp only [beforeOr, DptNode.truth, truth_attach, operand_some, operand_none, hn, Conj.value, Bool.true_and]
      rw [← hm, Bool.or_comm]
      rfl

theorem Disj.truth_plain (d : Disj α) (h : d.plain = true) : (d.read leaf).truth truth = d.value tv := by
  cases d with
  | single c => exact c.truth_plain h
  | or c d =>
    simp only [Disj.plain, Bool.and_eq_true] at h
    rw [Disj.read, c.truth_plainBeforeOr h.1, d.truth_plain h.2]
    rfl

end

variable (truth leaf tv)

def Disj.Faithful (s : Disj Unit) : Prop := ∀ d : Disj α, d.shape = s → (d.read leaf).truth truth = d.value tv

def Conj.Faithful (s : Conj Unit) : Prop :=
  ∀ c : Conj α, c.shape = s → (c.read leaf none none).truth truth = c.value tv

def Negation.Faithful (s : Negation Unit) : Prop :=
  ∀ n : Negation α, n.shape = s → (nots (n.read leaf).1 (n.read leaf).2).truth truth = n.value tv

variable {truth leaf tv}

include hsurj

/-- A conjunction with a `&&` waiting behind `||` is not faithful if its first operand is false. -/
theorem not_faithful_of_waits (hw : ∀ e : Conj α, e.shape = c → ∀ x t,
      e.read leaf (some x) (some t) = attach (some x) (e.read leaf none (some t))) :
    ¬ Disj.Faithful truth leaf tv (.or (.and n c) d) := by
  intro h
  obtain ⟨m, rfl, hb, hv⟩ := exists_bound (n.exists_operand hleaf hsurj) false
  -- what the tree is when the operand that waits is false
  have ht : ∀ e : Conj α, e.shape = c → ∀ t,
      ((Conj.and m e).read leaf none (some t)).truth truth = flips (m.bangs - 1) false := by
    intro e he t
    rw [Conj.truth_read_and, hw e he, truth_attach, operand_some, hb]
    simp
  by_cases heven : (m.bangs - 1) % 2 = 0
  · obtain ⟨e, rfl, -⟩ := c.exists_value hleaf hsurj true
    obtain ⟨g, rfl, -, hg⟩ := d.exists_value hleaf hsurj true
    have := h (.or (.and m e) g) rfl
    rw [Disj.read, ht e rfl, Disj.value, hg, flips_even heven] at this
    simp at this
  · obtain ⟨e, rfl, he, -⟩ := c.exists_value hleaf hsurj false
    obtain ⟨g, rfl, -, hg⟩ := d.exists_value hleaf hsurj false
    have := h (.or (.and m e) g) rfl
    rw [Disj.read, ht e rfl, Disj.value, Conj.value, he, hg, flips_odd heven] at this
    simp at this

mutual

theorem Primary.plain_of_faithful
    (p : Primary Unit) (h : ∀ q : Primary α, q.shape = p → (q.read leaf).truth truth = q.value tv) : p.plain = true := by
  cases p with
  | cond u => rfl
  | paren d => exact d.plain_of_faithful fun e he => h (.paren e) (by rw [Primary.shape, he])

theorem Negation.plain_of_faithful (n : Negation Unit) (h : n.Faithful truth leaf tv) : n.plain = true := by
  cases n with
  | primary p => exact p.plain_of_faithful fun q hq => h (.primary q) (by rw [Negation.shape, hq])
  | not n =>
    refine n.plain_of_faithful ?_
    intro m hm
    have := h (.not m) (by rw [Negation.shape, hm])
    simpa [Negation.read, nots, DptNode.truth, Negation.value] using this

theorem Conj.plain_of_faithful (c : Conj Unit) (h : c.Faithful truth leaf tv) : c.plain = true := by
  cases c with
  | single n => exact n.plain_of_faithful fun m hm => h (.single m) (by rw [Conj.shape, hm])
  | and n c =>
    have ha : ∀ (m : Negation α) (e : Conj α), m.shape = n → e.shape = c →
        flips (m.bangs - 1) ((bound (m.read leaf)).2.truth truth && (e.read leaf none none).truth truth) =
          (m.value tv && e.value tv) := by
      intro m e hm he
      have := h (.and m e) (by rw [Conj.shape, hm, he])
      rwa [Conj.truth_read_and, e.read_waiting, truth_attach, operand_none, operand_some, Bool.true_and] at this
    have heven : (n.bangs - 1) % 2 = 0 := by
      by_contra ho
      obtain ⟨m, rfl, hb, hv⟩ := exists_bound (n.exists_operand hleaf hsurj) false
      obtain ⟨e, rfl, he, -⟩ := c.exists_value hleaf hsurj false
      rw [m.bangs_shape] at ho
      have := ha m e rfl rfl
      rw [hb, he, flips_odd ho] at this
      simp at this
    have hn : n.plain = true := by
      refine n.plain_of_faithful ?_
      intro m hm
      obtain ⟨e, he, hv, hr, -⟩ := c.exists_value hleaf hsurj true
      have := ha m e hm he
      rwa [hr none, hv, operand_none, Bool.and_self, Bool.and_true, Bool.and_true, ← m.read_fst leaf,
        ← truth_nots_bound] at this
    have hc : c.plain = true := by
      refine c.plain_of_faithful ?_
      intro e he
      obtain ⟨m, hm, hb, hv⟩ := exists_bound (n.exists_operand hleaf hsurj) true
      have := ha m e hm he
      rwa [hb, hv, ← m.bangs_shape, hm, flips_even heven, flips_even heven, Bool.true_and, Bool.true_and] at this
    simp [Conj.plain, Negation.light, heven, hn, hc]

theorem Disj.plain_of_faithful (d : Disj Unit) (h : d.Faithful truth leaf tv) : d.plain = true := by
  cases d with
  | single c => exact c.plain_of_faithful fun e he => h (.single e) (by rw [Disj.shape, he])
  | or c d =>
    cases c with
    | single n =>
      have ha : ∀ (m : Negation α) (g : Disj α), m.shape = n → g.shape = d →
          flips (m.bangs - 1) ((g.read leaf).truth truth || (bound (m.read leaf)).2.truth truth) =
            (m.value tv || g.value tv) := by
        intro m g hm hg
        have := h (.or (.single m) g) (by rw [Disj.shape, Conj.shape, hm, hg])
        rwa [Disj.read, Conj.read, truth_beforeOr_none, m.read_fst] at this
      have heven : (n.bangs - 1) % 2 = 0 := by
        by_contra ho
        obtain ⟨m, rfl, hb, hv⟩ := exists_bound (n.exists_operand hleaf hsurj) true
        obtain ⟨g, rfl, -, hg⟩ := d.exists_value hleaf hsurj true
        rw [m.bangs_shape] at ho
        have := ha m g rfl rfl
        rw [hb, hg, flips_odd ho] at this
        simp at this
      have hn : n.plain = true := by
        refine n.plain_of_faithful ?_
        intro m hm
        obtain ⟨g, hg, hr, hv⟩ := d.exists_value hleaf hsurj false
        have := ha m g hm hg
        rwa [hr, hv, Bool.false_or, Bool.or_false, ← m.read_fst leaf, ← truth_nots_bound] at this
      have hd : d.plain = true := by
        refine d.plain_of_faithful ?_
        intro g hg
        obtain ⟨m, hm, hb, hv⟩ := exists_bound (n.exists_operand hleaf hsurj) false
        have := ha m g hm hg
        rwa [hb, hv, ← m.bangs_shape, hm, flips_even heven, flips_even heven, Bool.or_false,
          Bool.false_or] at this
      simp [Disj.plain, Conj.plainBeforeOr, Negation.light, heven, hn, hd]
    | and n c =>
      cases c with
      | and m c =>
        refine absurd h (not_faithful_of_waits hleaf hsurj ?_)
        intro e he x t
        cases e with
        | single => simp [Conj.shape] at he
        | and => rfl
      | single m =>
        by_cases hban : m.bangs = 0
        · have hr : ∀ m' : Negation α, m'.shape = m → m'.read leaf = (0, (m'.read leaf).2) := by
            rintro m' rfl
            exact Prod.ext (by rw [m'.read_fst, ← m'.bangs_shape, hban]) rfl
          have ha : ∀ (n' m' : Negation α) (g : Disj α), n'.shape = n → m'.shape = m → g.shape = d →
              flips (n'.bangs - 1) ((g.read leaf).truth truth ||
                ((bound (n'.read leaf)).2.truth truth && (m'.read leaf).2.truth truth)) =
              (n'.value tv && m'.value tv || g.value tv) := by
            intro n' m' g hn hm hg
            have := h (.or (.and n' (.single m')) g) (by rw [Disj.shape, Conj.shape, Conj.shape, hn, hm, hg])
            rw [Disj.read, Conj.truth_read_and, Conj.read, hr m' hm] at this
            simpa only [beforeOr, DptNode.truth, truth_attach, operand_none, operand_some, Bool.true_and, Disj.value,
              Conj.value] using this
          have heven : (n.bangs - 1) % 2 = 0 := by
            by_contra ho
            obtain ⟨n', rfl, -⟩ := n.exists_operand hleaf hsurj true
            obtain ⟨m', rfl, -⟩ := m.exists_operand hleaf hsurj true
            obtain ⟨g, rfl, hg, hg'⟩ := d.exists_value hleaf hsurj true
            rw [n'.bangs_shape] at ho
            have := ha n' m' g rfl rfl rfl
            rw [hg, hg', flips_odd ho] at this
            simp at this
          have hn : n.plain = true := by
            refine n.plain_of_faithful ?_
            intro n' hn
            obtain ⟨m', hm, ht, hv⟩ := m.exists_operand hleaf hsurj true
            obtain ⟨g, hg, hf, hv'⟩ := d.exists_value hleaf hsurj false
            have := ha n' m' g hn hm hg
            rwa [ht, hv, hf, hv', hban, flips_even (k := 0) rfl, Bool.false_or, Bool.and_true, Bool.and_true,
              Bool.or_false, ← n'.read_fst leaf, ← truth_nots_bound] at this
          have hm : m.plain = true := by
            refine m.plain_of_faithful ?_
            intro m' hm
            obtain ⟨n', hn, hb, hv⟩ := exists_bound (n.exists_operand hleaf hsurj) true
            obtain ⟨g, hg, hf, hv'⟩ := d.exists_value hleaf hsurj false
            have := ha n' m' g hn hm hg
            rw [hb, hv, hf, hv', ← n'.bangs_shape, hn, flips_even heven, flips_even heven,
              Bool.false_or, Bool.true_and, Bool.true_and, Bool.or_false] at this
            rw [hr m' hm]
            exact this
          have hd : d.plain = true := by
            refine d.plain_of_faithful ?_
            intro g hg
            obtain ⟨n', hn, hb, hv⟩ := exists_bound (n.exists_operand hleaf hsurj) false
            obtain ⟨m', hm, -⟩ := m.exists_operand hleaf hsurj true
            have := ha n' m' g hn hm hg
            rwa [hb, hv, ← n'.bangs_shape, hn, flips_even heven, flips_even heven, Bool.false_and,
              Bool.false_and, Bool.or_false, Bool.false_or] at this
          simp [Disj.plain, Conj.plainBeforeOr, Negation.light, heven, hn, hm, hd, hban]
        · refine absurd h (not_faithful_of_waits hleaf hsurj ?_)
          intro e he x t
          cases e with
          | and => simp [Conj.shape] at he
          | single m' =>
            obtain rfl : m'.shape = m := by simpa [Conj.shape] using he
            obtain ⟨k, hk⟩ := Nat.exists_eq_succ_of_ne_zero hban
            have hr : m'.read leaf = (k + 1, (m'.read leaf).2) :=
              Prod.ext (by rw [m'.read_fst, ← m'.bangs_shape, hk]) rfl
            rw [Conj.read, Conj.read, hr]
            rfl

end

end

section

variable {matchJobs : List Char → List Nat}

def Found.truth (truth : JobNode → Bool) (c : Found matchJobs) : Bool :=
  (matchJobs c.1.jobName).all fun job => truth (c.1.node job)

theorem truth_joined (truth : JobNode → Bool) (node : JobNode) (nodes : List JobNode) :
    (joined node nodes).truth truth = (truth node && nodes.all truth) := by
  have hf : ∀ t : DptNode, (nodes.foldl (fun t node => .and (.job node) t) t).truth truth =
      (t.truth truth && nodes.all truth) := by
    induction nodes with
    | nil => simp
    | cons node nodes ih =>
      intro t
      rw [foldl_cons, ih, all_cons, DptNode.truth, DptNode.truth, Bool.and_comm (truth node), Bool.and_assoc]
  exact hf _

theorem leafValues_found (truth : JobNode → Bool) :
    LeafValues truth (Found.leaf : Found matchJobs → DptNode) (Found.truth truth) := by
  rintro ⟨c, hc⟩
  obtain ⟨job, jobs, hj⟩ := exists_cons_of_ne_nil hc
  simp only [Found.leaf, truth_joined, Found.truth, hj, head_cons, tail_cons, all_cons, all_map]
  rfl

end

/-- The expressions of a shape are all parsed into trees with their values iff the shape is plain. -/
theorem parse_value_iff (s : Disj Unit) :
    (∀ (matchJobs : List Char → List Nat) (d : Disj (Found matchJobs)) (truth : JobNode → Bool), d.shape = s →
      ∃ t, parseDepCond matchJobs (d.tokens fun c => c.1.tokens) = some t ∧
        evalDepCond (fun node => ofBool (truth node)) t = ofBool (d.value (Found.truth truth))) ↔ s.plain = true := by
  constructor
  · intro h
    -- two jobs, one of which makes its conditions true
    let matchJobs : List Char → List Nat := fun name => [name.length]
    let truth : JobNode → Bool := fun node => node.dptJobRec = 0
    have hsurj : Function.Surjective (Found.truth truth : Found matchJobs → Bool) := by
      intro b
      cases b with
      | false => exact ⟨⟨.bare ['a'], by simp [matchJobs]⟩, rfl⟩
      | true => exact ⟨⟨.bare [], by simp [matchJobs]⟩, rfl⟩
    refine s.plain_of_faithful (leafValues_found truth) hsurj ?_
    intro d hd
    obtain ⟨t, hpar, he⟩ := h matchJobs d truth hd
    rw [parseDepCond_tokens readsConds_found d, Option.some.injEq] at hpar
    rw [evalDepCond_ofBool, ← hpar] at he
    have hi : Function.Injective ofBool := by
      intro a b hab
      cases a <;> cases b <;> first | rfl | cases hab
    exact hi he
  · rintro hpla matchJobs d truth rfl
    refine ⟨_, parseDepCond_tokens readsConds_found d, ?_⟩
    rw [evalDepCond_ofBool, d.truth_plain (leafValues_found truth) (by rwa [d.plain_shape] at hpla)]

/-- `a && b && c || d` is read as `a && (b && c || d)`: with `d` alone true, it is false. -/
theorem parse_value_regrouped : let matchJobs : List Char → List Nat := fun name => [name.length]
    let job (k : Nat) : Negation (Found matchJobs) := .primary (.cond ⟨.bare (replicate k 'j'), by simp [matchJobs]⟩)
    let d : Disj (Found matchJobs) := .or (.and (job 1) (.and (job 2) (.single (job 3)))) (.single (.single (job 4)))
    let truth : JobNode → Bool := fun node => node.dptJobRec = 4
    ¬ ∃ t, parseDepCond matchJobs (d.tokens fun c => c.1.tokens) = some t ∧
      evalDepCond (fun node => ofBool (truth node)) t = ofBool (d.value (Found.truth truth)) := by
  rintro matchJobs job d truth ⟨t, hpar, he⟩
  have ht : (parseDepCond matchJobs (d.tokens fun c => c.1.tokens)).map
      (evalDepCond fun node => ofBool (truth node)) = some .DP_FALSE := by decide
  rw [hpar, Option.map_some, he] at ht
  exact absurd ht (by decide)

end OpenLava.DepCond

import OpenLava.Lib.Wconf

/-!
# Walking the tree

What `readNextLine` returns from a tree whose branches are laid out behind the nodes they belong to.
-/

namespace OpenLava.Wconf

open Function List

variable {check : Line → Bool}

def Reads (check : Line → Bool) (r : Reader) (x : Option Line × Reader) : Prop :=
  ∃ n, ∀ fuel, n ≤ fuel → readNextLine check fuel r = some x

def Follows (check : Line → Bool) (r : Reader) (x : Option Line × Reader) : Prop :=
  ∃ n, ∀ fuel, n ≤ fuel → follow (readNextLine check fuel) r = some x

variable {r r' : Reader} {x : Option Line × Reader} {i : Nat} {stack : List Nat} {p : Option Nat}
  {ls rest : List Line}

theorem Reads.of_body (h : ∀ fuel, n ≤ fuel → readBody check (readNextLine check fuel) r = some x) : Reads check r x := by
  refine ⟨n + 1, fun fuel hf => ?_⟩
  obtain ⟨fuel, rfl⟩ : ∃ k, fuel = k + 1 := ⟨fuel - 1, by omega⟩
  exact h fuel (by omega)

theorem Follows.line {line : Line} (h : Reads check r (some line, r')) : Follows check r (some line, r') := by
  obtain ⟨n, hn⟩ := h
  refine ⟨n, fun fuel hf => ?_⟩
  rw [follow, hn fuel hf]
  rfl

theorem Follows.up (h : Reads check r (none, r'))
    (hup : Reads check (r'.goto r'.ptrStack.head?) x) : Follows check r x := by
  obtain ⟨n, hn⟩ := h
  obtain ⟨m, hm⟩ := hup
  refine ⟨max n m, fun fuel hf => ?_⟩
  rw [follow, hn fuel (by omega)]
  exact hm fuel (by omega)

theorem Reads.null (h : r.curNode = none) : Reads check r (none, r) := by
  refine .of_body (n := 0) fun fuel _ => ?_
  rw [readBody, h]

theorem Reads.text {line : Line} (hcur : r.curNode = some i) (hc : (r.node i).cond = none)
    (hl : (r.node i).lines[r.lineCount]? = some line) : Reads check r (some line,
      { r with lineCount := r.lineCount + 1, lineNum := (r.node i).beginLineNum + r.lineCount }) := by
  refine .of_body (n := 0) fun fuel _ => ?_
  simp only [readBody, hcur, hc, hl]

theorem Reads.textEnd (hcur : r.curNode = some i)
    (hc : (r.node i).cond = none) (hl : (r.node i).lines[r.lineCount]? = none)
    (h : Follows check (r.goto (r.node i).fwPtr) x) : Reads check r x := by
  obtain ⟨n, hn⟩ := h
  refine .of_body (n := n) fun fuel hf => ?_
  simp only [readBody, hcur, hc, hl]
  exact hn fuel hf

def Reader.leave (r : Reader) (i : Nat) : Reader :=
  { r.setTag i .zero with ptrStack := r.ptrStack.tail }.goto (r.node i).fwPtr

def Reader.enter (r : Reader) (i : Nat) (p : Option Nat) : Reader :=
  { r.setTag i .NODE_PASED with ptrStack := i :: r.ptrStack }.goto p

def ConfNode.branch (n : ConfNode) (value : Bool) : Option Nat := if value then n.leftPtr else n.rightPtr

theorem Reads.passed {cond : Line} (hcur : r.curNode = some i) (hc : (r.node i).cond = some cond)
    (ht : (r.node i).tag = .NODE_PASED) (h : Follows check (r.leave i) x) : Reads check r x := by
  obtain ⟨n, hn⟩ := h
  refine .of_body (n := n) fun fuel hf => ?_
  simp only [readBody, hcur, hc, ht, ne_eq, not_true_eq_false, if_false, Option.bind_some]
  exact hn fuel hf

theorem readBody_enter {cond : Line} (hcur : r.curNode = some i)
    (hc : (r.node i).cond = some cond) (ht : (r.node i).tag ≠ .NODE_PASED)
    (recur : Reader → Option (Option Line × Reader)) :
    readBody check recur r = (recur (r.enter i ((r.node i).branch (check cond)))).bind fun x =>
      match x with
      | (some line, r) => some (some line, r)
      | (none, r) => follow recur (r.leave i) := by
  simp only [readBody, hcur, hc, if_pos ht]
  congr 2
  simp [Reader.enter, Reader.setTag, Reader.goto, ConfNode.branch]

theorem Reads.branchLine {cond line : Line} (hcur : r.curNode = some i)
    (hc : (r.node i).cond = some cond) (ht : (r.node i).tag ≠ .NODE_PASED)
    (h : Reads check (r.enter i ((r.node i).branch (check cond))) (some line, r')) : Reads check r (some line, r') := by
  obtain ⟨n, hn⟩ := h
  refine .of_body (n := n) fun fuel hf => ?_
  rw [readBody_enter hcur hc ht, hn fuel hf]
  rfl

theorem Reads.branchEnd {cond : Line} (hcur : r.curNode = some i) (hc : (r.node i).cond = some cond)
    (ht : (r.node i).tag ≠ .NODE_PASED) (h : Reads check (r.enter i ((r.node i).branch (check cond))) (none, r'))
    (hl : Follows check (r'.leave i) x) : Reads check r x := by
  obtain ⟨n, hn⟩ := h
  obtain ⟨m, hm⟩ := hl
  refine .of_body (n := max n m) fun fuel hf => ?_
  rw [readBody_enter hcur hc ht, hn fuel (by omega)]
  exact hm fuel (by omega)

variable {F : Nat → ConfNode}

/-- The lines of the selected branches from a node on, every node behind those it is reached from. -/
inductive Sel (F : Nat → ConfNode) (check : Line → Bool) : Nat → Option Nat → List Line → Prop
  | nil {lo : Nat} : Sel F check lo none []
  | text {lo i : Nat} {ls : List Line} (hlo : lo ≤ i) (hcond : (F i).cond = none)
      (hfw : Sel F check (i + 1) (F i).fwPtr ls) : Sel F check lo (some i) ((F i).lines ++ ls)
  | cond {lo i : Nat} {cond : Line} {ls ls' : List Line} (hlo : lo ≤ i) (hcond : (F i).cond = some cond)
      (hbranch : Sel F check (i + 1) ((F i).branch (check cond)) ls) (hfw : Sel F check (i + 1) (F i).fwPtr ls') :
      Sel F check lo (some i) (ls ++ ls')

inductive Cont (F : Nat → ConfNode) (check : Line → Bool) : List Nat → List Line → Prop
  | nil : Cont F check [] []
  | cons {i : Nat} {cond : Line} {stack : List Nat} {ls rest : List Line} (hcond : (F i).cond = some cond)
      (hfw : Sel F check (i + 1) (F i).fwPtr ls) (hbelow : ∀ j ∈ stack, j < i) (hrest : Cont F check stack rest) :
      Cont F check (i :: stack) (ls ++ rest)

/-- The nodes are those of the tree but for their tags; those passed are on the stack. -/
structure Tagged (F : Nat → ConfNode) (stack : List Nat) (node : Nat → ConfNode) : Prop where
  same : ∀ i, ∃ tag, node i = { F i with tag := tag }
  passed : ∀ i, (node i).tag = .NODE_PASED ↔ i ∈ stack

theorem Tagged.cond (h : Tagged F stack node) (i : Nat) : (node i).cond = (F i).cond ∧ (node i).lines = (F i).lines ∧
    (node i).fwPtr = (F i).fwPtr ∧ ∀ value, (node i).branch value = (F i).branch value := by
  obtain ⟨tag, ht⟩ := h.same i
  rw [ht]
  exact ⟨rfl, rfl, rfl, fun _ => rfl⟩

theorem Tagged.setTag (h : Tagged F stack node) (hi : tag = .NODE_PASED ↔ i ∈ stack')
    (ho : ∀ j, j ≠ i → (j ∈ stack ↔ j ∈ stack')) : Tagged F stack' (update node i { node i with tag := tag }) := by
  refine ⟨fun j => ?_, fun j => ?_⟩
  · by_cases hj : j = i
    · subst hj
      obtain ⟨old, hold⟩ := h.same j
      exact ⟨tag, by rw [update_self, hold]⟩
    · rw [update_of_ne hj]
      exact h.same j
  · by_cases hj : j = i
    · subst hj
      rw [update_self]
      exact hi
    · rw [update_of_ne hj, h.passed j]
      exact ho j hj

structure At (F : Nat → ConfNode) (r : Reader) (p : Option Nat) (stack : List Nat) : Prop where
  cur : r.curNode = p
  count : r.lineCount = 0
  pushed : r.ptrStack = stack
  tagged : Tagged F stack r.node

theorem At.enter (h : At F r (some i) stack) (p' : Option Nat) (hp : p = p') : At F (r.enter i p') p (i :: stack) := by
  refine ⟨hp.symm, rfl, ?_, ?_⟩
  · simp only [Reader.enter, Reader.goto, h.pushed]
  · refine h.tagged.setTag (iff_of_true rfl mem_cons_self) fun j hj => ?_
    simp [hj]

theorem At.leave (h : At F r p stack) (ht : stack.tail = stack') (hi : i ∉ stack')
    (ho : ∀ j, j ≠ i → (j ∈ stack ↔ j ∈ stack')) : At F (r.leave i) (F i).fwPtr stack' := by
  refine ⟨(h.tagged.cond i).2.2.1, rfl, ?_, h.tagged.setTag (iff_of_false (by decide) hi) ho⟩
  simp only [Reader.leave, Reader.goto, h.pushed, ht]

inductive Ready (F : Nat → ConfNode) (check : Line → Bool) : Reader → List Line → Prop
  | ended {r : Reader} (hend : At F r none []) : Ready F check r []
  | inside {r : Reader} {i : Nat} {ls rest : List Line} (hcur : r.curNode = some i) (hcond : (F i).cond = none)
      (hfw : Sel F check (i + 1) (F i).fwPtr ls) (hbelow : ∀ j ∈ r.ptrStack, j < i)
      (hcont : Cont F check r.ptrStack rest) (htagged : Tagged F r.ptrStack r.node) :
      Ready F check r ((F i).lines.drop r.lineCount ++ (ls ++ rest))

def Gives (F : Nat → ConfNode) (check : Line → Bool) (x : Option Line × Reader) : List Line → Prop
  | [] => x.1 = none ∧ At F x.2 none []
  | line :: ls => x.1 = some line ∧ Ready F check x.2 ls

def Unwinds (F : Nat → ConfNode) (check : Line → Bool) (stack : List Nat) (rest : List Line) : Prop :=
  ∀ r, At F r stack.head? stack → ∃ x, Reads check r x ∧ Gives F check x rest

theorem unwinds_nil : Unwinds F check [] [] := fun r hr => ⟨(none, r), .null hr.cur, rfl, hr⟩

theorem follows_chain {lo : Nat} (hs : Sel F check lo p ls) (hr : At F r p stack) (hu : Unwinds F check stack rest)
    (hc : ∀ i, p = some i → ∃ x, Reads check r x ∧ Gives F check x (ls ++ rest)) : ∃ x, Follows check r x ∧
    Gives F check x (ls ++ rest) := by
  cases p with
  | none =>
    cases hs
    have hup : At F (r.goto r.ptrStack.head?) stack.head? stack :=
      ⟨congrArg List.head? hr.pushed, rfl, hr.pushed, hr.tagged⟩
    obtain ⟨x, hx, hg⟩ := hu _ hup
    exact ⟨x, .up (.null hr.cur) hx, hg⟩
  | some i =>
    obtain ⟨⟨line, r'⟩, hx, hg⟩ := hc i rfl
    generalize ls ++ rest = all at hg ⊢
    cases all with
    | nil =>
      -- the chain went on to the end of the file
      obtain ⟨rfl, he⟩ := hg
      have hn : (r'.goto r'.ptrStack.head?).curNode = none := congrArg List.head? he.pushed
      exact ⟨_, .up hx (.null hn), rfl, hn, rfl, he.pushed, he.tagged⟩
    | cons line' ls =>
      obtain ⟨rfl, hr⟩ := hg
      exact ⟨_, .line hx, rfl, hr⟩

theorem reads_inside (hcur : r.curNode = some i) (hc : (F i).cond = none) (hfw : Sel F check (i + 1) (F i).fwPtr ls)
    (hb : ∀ j ∈ r.ptrStack, j < i) (hcont : Cont F check r.ptrStack rest) (ht : Tagged F r.ptrStack r.node)
    (hf : ∃ x, Follows check (r.goto (F i).fwPtr) x ∧ Gives F check x (ls ++ rest)) : ∃ x, Reads check r x ∧
    Gives F check x ((F i).lines.drop r.lineCount ++ (ls ++ rest)) := by
  obtain ⟨hc', hlin, hptr, -⟩ := ht.cond i
  cases hl : (F i).lines[r.lineCount]? with
  | some line =>
    refine ⟨_, .text hcur (hc'.trans hc) (by rw [hlin, hl]), ?_⟩
    obtain ⟨hlt, hg⟩ := List.getElem?_eq_some_iff.mp hl
    rw [drop_eq_getElem_cons hlt, hg]
    refine ⟨rfl, ?_⟩
    exact .inside (r := { r with lineCount := r.lineCount + 1, lineNum := (r.node i).beginLineNum + r.lineCount })
      hcur hc hfw hb hcont ht
  | none =>
    obtain ⟨x, hx, hg⟩ := hf
    refine ⟨x, .textEnd hcur (hc'.trans hc) (by rw [hlin, hl]) (by rwa [hptr]), ?_⟩
    rwa [drop_eq_nil_of_le (List.getElem?_eq_none_iff.mp hl)]

theorem reads_chain {lo : Nat} (hs : Sel F check lo p ls) : ∀ {r : Reader} {stack : List Nat} {rest : List Line}
    {i : Nat}, p = some i → (∀ j ∈ stack, j < lo) → Cont F check stack rest → At F r p stack →
    Unwinds F check stack rest → ∃ x, Reads check r x ∧ Gives F check x (ls ++ rest) := by
  induction hs with
  | nil => exact fun h => absurd h (by simp)
  | @text lo i ls hlo hcond hfw ih =>
    intro r stack rest _ _ hbel hcont hr hunw
    have hbel' : ∀ j ∈ stack, j < i := fun j hj => (hbel j hj).trans_le hlo
    have hf := follows_chain hfw (r := r.goto (F i).fwPtr) ⟨rfl, rfl, hr.pushed, hr.tagged⟩ hunw fun k hk =>
      ih hk (fun j hj => (hbel' j hj).trans (Nat.lt_succ_self i)) hcont ⟨rfl, rfl, hr.pushed, hr.tagged⟩ hunw
    have hi := reads_inside hr.cur hcond hfw (hr.pushed ▸ hbel') (hr.pushed ▸ hcont) (hr.pushed ▸ hr.tagged) hf
    rw [hr.count] at hi
    simpa using hi
  | @cond lo i cond ls ls' hlo hcond hbranch hfw ihbranch ihfw =>
    intro r stack rest _ _ hbel hcont hr hunw
    have hbel' : ∀ j ∈ stack, j < i := fun j hj => (hbel j hj).trans_le hlo
    have hf : i ∉ stack := fun hi => (hbel' i hi).false
    obtain ⟨hcond', -, -, hbra⟩ := hr.tagged.cond i
    have ht : (r.node i).tag ≠ .NODE_PASED := fun h => hf ((hr.tagged.passed i).mp h)
    -- behind the block, on any stack of nodes before it
    have hbeh : ∀ {r' : Reader} {stack' : List Nat} {rest' : List Line}, At F r' (F i).fwPtr stack' →
        (∀ j ∈ stack', j < i) → Cont F check stack' rest' → Unwinds F check stack' rest' →
        ∃ x, Follows check r' x ∧ Gives F check x (ls' ++ rest') := by
      intro r' stack' rest' hr' hb hc hu
      exact follows_chain hfw hr' hu fun k hk => ihfw hk (fun j hj => (hb j hj).trans (Nat.lt_succ_self i)) hc hr' hu
    have hl : ∀ {r' : Reader} {p : Option Nat}, At F r' p (i :: stack) → At F (r'.leave i) (F i).fwPtr stack := by
      intro r' p hr'
      exact hr'.leave rfl hf fun j hj => by simp [hj]
    have hunw' : Unwinds F check (i :: stack) (ls' ++ rest) := by
      intro r' hr'
      obtain ⟨x, hx, hg⟩ := hbeh (hl hr') hbel' hcont hunw
      have hpas := (hr'.tagged.passed i).mpr mem_cons_self
      exact ⟨x, .passed hr'.cur ((hr'.tagged.cond i).1.trans hcond) hpas hx, hg⟩
    have hc := hr.cur
    have he : At F (r.enter i ((r.node i).branch (check cond))) ((F i).branch (check cond)) (i :: stack) :=
      hr.enter _ (hbra _).symm
    generalize hp : (F i).branch (check cond) = p at hbranch ihbranch he
    cases p with
    | none =>
      cases hbranch
      obtain ⟨x, hx, hg⟩ := hbeh (hl he) hbel' hcont hunw
      exact ⟨x, .branchEnd hc (hcond'.trans hcond) ht (.null he.cur) hx, hg⟩
    | some k =>
      have hs : ∀ j ∈ i :: stack, j < i + 1 := by
        rintro j (_ | ⟨_, hj⟩)
        · exact Nat.lt_succ_self i
        · exact (hbel' j hj).trans (Nat.lt_succ_self i)
      obtain ⟨⟨line, r'⟩, hx, hg⟩ := ihbranch rfl hs (.cons hcond hfw hbel' hcont) he hunw'
      rw [append_assoc]
      generalize ha : ls ++ (ls' ++ rest) = all at hg ⊢
      cases all with
      | nil =>
        -- the branch has read to the end of the file; what is behind the block is read once more, in vain
        obtain ⟨rfl, hend⟩ := hg
        have he : ls' = [] := by simp_all
        obtain ⟨x, hx', hg'⟩ := hbeh (hend.leave rfl not_mem_nil fun _ _ => Iff.rfl) (by simp) .nil unwinds_nil
        rw [he] at hg'
        exact ⟨x, .branchEnd hc (hcond'.trans hcond) ht hx hx', hg'⟩
      | cons line' all =>
        obtain ⟨rfl, hr⟩ := hg
        exact ⟨_, .branchLine hc (hcond'.trans hcond) ht hx, rfl, hr⟩

theorem unwinds (hcont : Cont F check stack rest) : Unwinds F check stack rest := by
  induction hcont with
  | nil => exact unwinds_nil
  | @cons i cond stack ls rest hc hfw hb hrest ih =>
    intro r hr
    have hf : i ∉ stack := fun hi => (hb i hi).false
    have hl : At F (r.leave i) (F i).fwPtr stack := hr.leave rfl hf fun j hj => by simp [hj]
    have hb' : ∀ j ∈ stack, j < i + 1 := fun j hj => (hb j hj).trans (Nat.lt_succ_self i)
    obtain ⟨x, hx, hg⟩ := follows_chain hfw hl ih fun k hk => reads_chain hfw hk hb' hrest hl ih
    have hpas := (hr.tagged.passed i).mpr mem_cons_self
    exact ⟨x, .passed hr.cur ((hr.tagged.cond i).1.trans hc) hpas hx, hg⟩

theorem reads_ready (h : Ready F check r ls) : ∃ x, Reads check r x ∧ Gives F check x ls := by
  cases h with
  | ended he => exact ⟨_, .null he.cur, rfl, he⟩
  | @inside i ls rest hcur hc hfw hb hcont ht =>
    have hg : At F (r.goto (F i).fwPtr) (F i).fwPtr r.ptrStack := ⟨rfl, rfl, rfl, ht⟩
    have hb' : ∀ j ∈ r.ptrStack, j < i + 1 := fun j hj => (hb j hj).trans (Nat.lt_succ_self i)
    exact reads_inside hcur hc hfw hb hcont ht
      (follows_chain hfw hg (unwinds hcont) fun k hk => reads_chain hfw hk hb' hcont hg (unwinds hcont))

theorem reads_root (hs : Sel F check 0 root ls) (hr : At F r root []) : ∃ x, Reads check r x ∧ Gives F check x ls := by
  cases root with
  | none =>
    cases hs
    exact ⟨_, .null hr.cur, rfl, hr⟩
  | some i => simpa using reads_chain hs rfl (by simp) .nil hr unwinds_nil

theorem readCalls_of_gives {P : Reader → List Line → Prop}
    (hg : ∀ r ls, P r ls → ∃ x, Reads check r x ∧ Gives F check x ls) (hrea : ∀ r ls, Ready F check r ls → P r ls)
    (ls : List Line) (k : Nat) (hr : P r ls) : ∃ n, ∀ fuel, n ≤ fuel →
      readCalls check fuel (ls.length + k) r = some (ls.map some ++ replicate k none) := by
  induction ls generalizing r with
  | nil =>
    rw [length_nil, Nat.zero_add]
    induction k generalizing r with
    | zero => exact ⟨0, fun _ _ => rfl⟩
    | succ k ih =>
      obtain ⟨⟨line, r'⟩, ⟨n, hn⟩, rfl, he⟩ := hg r [] hr
      obtain ⟨m, hm⟩ := ih (hrea _ _ (.ended he))
      refine ⟨max n m, fun fuel hf => ?_⟩
      rw [readCalls, hn fuel (by omega), Option.bind_some, hm fuel (by omega)]
      rfl
  | cons line ls ih =>
    obtain ⟨⟨line', r'⟩, ⟨n, hn⟩, rfl, hr'⟩ := hg r _ hr
    obtain ⟨m, hm⟩ := ih (hrea _ _ hr')
    refine ⟨max n m, fun fuel hf => ?_⟩
    rw [length_cons, Nat.succ_add, readCalls, hn fuel (by omega), Option.bind_some, hm fuel (by omega)]
    rfl

theorem readCalls_root {root : Option Nat} (hs : Sel F check 0 root ls) (hr : At F r root []) (k : Nat) : ∃ n, ∀ fuel,
    n ≤ fuel → readCalls check fuel (ls.length + k) r = some (ls.map some ++ replicate k none) := by
  refine readCalls_of_gives (F := F) (P := fun r ls => Ready F check r ls ∨ Sel F check 0 root ls ∧ At F r root []) ?_
    (fun _ _ => Or.inl) ls k (Or.inr ⟨hs, hr⟩)
  rintro r ls (h | ⟨hs, hr⟩)
  · exact reads_ready h
  · exact reads_root hs hr

end OpenLava.Wconf

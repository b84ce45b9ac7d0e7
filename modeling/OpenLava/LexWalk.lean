import Mathlib.Data.List.Basic
import Mathlib.Data.List.Pairwise
import Mathlib.Data.List.Infix

/-!
# Walks through ordered trees

A node is given by its path up to the root, and `kids` has the children of each node in their order. `lexNext` steps to
the first child, or else to the next sibling of the node or of the nearest ancestor that has one.
-/

namespace LexWalk

open List

variable {κ σ : Type} [DecidableEq κ] (kids : List κ → List κ)

def child (p : List κ) : Option (List κ) := (kids p).head?.map (· :: p)

def right : List κ → Option (List κ)
  | [] => none
  | x :: p => ((kids p).dropWhile (· ≠ x)).tail.head?.map (· :: p)

def climb : List κ → Option (List κ)
  | [] => none
  | x :: p => (right kids (x :: p)).or (climb p)

def lexNext (p : List κ) : Option (List κ) := (child kids p).or (climb kids p)

/-- The loop `for (p = root; p; p = lexNext (p))`; `none` if it does not end within the fuel. -/
def forEach (body : List κ → σ → σ) : Nat → Option (List κ) → σ → Option σ
  | _, none, s => some s
  | 0, some _, _ => none
  | fuel + 1, some p, s => forEach body fuel (lexNext kids p) (body p s)

/-- The nodes down to depth `d` below a node, each one before its children. -/
def preorder : Nat → List κ → List (List κ)
  | 0, p => [p]
  | d + 1, p => p :: (kids p).flatMap fun x => preorder d (x :: p)

/-- No path below the node is longer than `d`. -/
def Height : Nat → List κ → Prop
  | 0, p => kids p = []
  | d + 1, p => ∀ x ∈ kids p, Height d (x :: p)

variable {kids}

omit [DecidableEq κ] in
theorem suffix_of_mem_preorder (h : q ∈ preorder kids d p) : p <:+ q := by
  induction d generalizing p with
  | zero =>
    rw [preorder, mem_singleton] at h
    exact h ▸ suffix_refl p
  | succ d ih =>
    rw [preorder, mem_cons, mem_flatMap] at h
    rcases h with rfl | ⟨x, -, h⟩
    · exact suffix_refl q
    · exact (suffix_cons x p).trans (ih h)

omit [DecidableEq κ] in
theorem not_suffix_of_sibling (hxy : x ≠ y) (ha : x :: p <:+ a) (hb : y :: p <:+ b) : ¬b <:+ a := by
  intro h
  have hs : x :: p <:+ y :: p := suffix_of_suffix_length_le ha (hb.trans h) (by simp)
  have hsame : x :: p = y :: p := hs.eq_of_length (by simp)
  exact hxy (List.cons.inj hsame).1

omit [DecidableEq κ] in
/-- A node is not visited after a node that is below it, nor twice. -/
theorem preorder_pairwise (hn : ∀ p, (kids p).Nodup) (d : Nat) (p : List κ) :
    (preorder kids d p).Pairwise fun a b => ¬b <:+ a := by
  induction d generalizing p with
  | zero => simp [preorder]
  | succ d ih =>
    rw [preorder, pairwise_cons]
    constructor
    · intro b hb hs
      obtain ⟨x, -, hb⟩ := mem_flatMap.mp hb
      have hl := (suffix_of_mem_preorder hb).length_le
      have hsho := hs.length_le
      rw [length_cons] at hl
      omega
    · rw [pairwise_flatMap]
      refine ⟨fun x _ => ih (x :: p), (hn p).imp fun hxy a ha b hb => ?_⟩
      exact not_suffix_of_sibling hxy (suffix_of_mem_preorder ha) (suffix_of_mem_preorder hb)

theorem right_eq (hkids : kids p = ks ++ x :: ks') (hn : (kids p).Nodup) :
    right kids (x :: p) = ks'.head?.map (· :: p) := by
  have hnew : x ∉ ks := fun hx => by
    rw [hkids, nodup_append] at hn
    exact hn.2.2 x hx x (by simp) rfl
  have hd : (ks ++ x :: ks').dropWhile (· ≠ x) = x :: ks' := by
    rw [dropWhile_append_of_pos fun y hy => by simpa using fun h : y = x => hnew (h ▸ hy)]
    simp
  rw [right, hkids, hd, tail_cons]

theorem forEach_below (hn : ∀ p, (kids p).Nodup) (body : List κ → σ → σ)
    (h : Height kids d p) (fuel : Nat) (s : σ) : forEach kids body (fuel + (preorder kids d p).length) (some p) s =
      forEach kids body fuel (climb kids p) ((preorder kids d p).foldl (fun s p => body p s) s) := by
  induction d generalizing p fuel s with
  | zero =>
    have hc : child kids p = none := by simp [child, show kids p = [] from h]
    simp [preorder, forEach, lexNext, hc]
  | succ d ih =>
    -- the children from `x` on
    have hr : ∀ (ks ks' : List κ) (x : κ), kids p = ks ++ x :: ks' → ∀ (fuel : Nat) (s : σ),
        forEach kids body (fuel + ((x :: ks').flatMap fun x => preorder kids d (x :: p)).length) (some (x :: p)) s =
          forEach kids body fuel (climb kids p)
            (((x :: ks').flatMap fun x => preorder kids d (x :: p)).foldl (fun s p => body p s) s) := by
      intro ks ks'
      induction ks' generalizing ks with
      | nil =>
        intro x hkids fuel s
        have hx : x ∈ kids p := by simp [hkids]
        have hcli : climb kids (x :: p) = climb kids p := by simp [climb, right_eq hkids (hn p)]
        rw [flatMap_cons, flatMap_nil, append_nil, ih (h x hx), hcli]
      | cons y ks' ihs =>
        intro x hkids fuel s
        have hx : x ∈ kids p := by simp [hkids]
        have hcli : climb kids (x :: p) = some (y :: p) := by simp [climb, right_eq hkids (hn p)]
        rw [flatMap_cons, length_append, Nat.add_comm (List.length _), ← Nat.add_assoc, ih (h x hx), hcli,
          ihs (ks ++ [x]) y (by simp [hkids]), foldl_append]
    cases hk : kids p with
    | nil =>
      have hc : child kids p = none := by simp [child, hk]
      simp [preorder, forEach, lexNext, hc, hk]
    | cons x ks =>
      have hc : child kids p = some (x :: p) := by simp [child, hk]
      simp only [preorder, hk, length_cons, ← Nat.add_assoc, forEach, lexNext, hc, Option.some_or,
        foldl_cons]
      exact hr [] ks x hk fuel (body p s)

theorem forEach_root (hn : ∀ p, (kids p).Nodup) (body : List κ → σ → σ) (h : Height kids d []) (s : σ) :
    forEach kids body (preorder kids d []).length (some []) s =
      some ((preorder kids d []).foldl (fun s p => body p s) s) := by
  have ha := forEach_below hn body h 0 s
  rwa [Nat.zero_add] at ha

end LexWalk

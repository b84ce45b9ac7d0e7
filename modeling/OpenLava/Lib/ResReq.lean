import Mathlib.Tactic.Common

/-!
# The order and filter sections of a resource requirement

`parseOrder` and `parseFilter` of `resreq.c`, on the text of a section. `parseOrder` stops only after it has written
behind the end of `order`, and `parseFilter` has no test for the end of `indicies`.
-/

namespace OpenLava.ResReq

open List

def NBUILTINDEX : Nat := 11

inductive OrderType where
  | INCR | DECR | NA
  deriving DecidableEq, Repr

structure ResItem where
  orderType : OrderType
  (dynamic shared : Bool)

structure LsInfo where
  getResEntry : List Char → Option Nat
  resTable : Nat → ResItem
  numIndx : Nat -- `indicies` has this many elements.

inductive Parse where
  | PARSE_OK | PARSE_BAD_NAME | PARSE_BAD_FILTER
  deriving DecidableEq, Repr

def getNextToken (sp : List Char) : Option (List Char × List Char) :=
  let cp := if [':', '=', ' '].any (sp.head? = some ·) then sp.tail else sp
  if cp = [] then none else some (cp.span fun c => c ≠ ':' ∧ c ≠ '=')

/-- What successive calls give, at most `calls` of them. -/
def tokens : Nat → List Char → List (List Char)
  | 0, _ => []
  | calls + 1, sp =>
    match getNextToken sp with
    | none => []
    | some (token, sp) => token :: tokens calls sp

/-- Each token goes to the next place, up to one without an entry or a full array. -/
def writeTokens (entry : List Char → Option Int) (full : Nat → Bool) (bad : Parse) :
    List (List Char) → Nat → Parse × List (Nat × Int)
  | [], _ => (.PARSE_OK, [])
  | token :: rest, n =>
    match entry token with
    | none => (bad, [])
    | some e =>
      if full n then (.PARSE_OK, [])
      else
        let (cc, writes) := writeTokens entry full bad rest (n + 1)
        (cc, (n, e) :: writes)

def parseTokens (entry : List Char → Option Int) (full : Nat → Bool) (bad : Parse) (req : List Char) :
    Parse × List (Nat × Int) :=
  if req.all (· = ' ') then (.PARSE_OK, []) else writeTokens entry full bad (tokens (req.length + 1) req) 0

def orderEntry (lsInfo : LsInfo) (token : List Char) : Option Int := do
  let negate := token.head? = some '-'
  let entry ← lsInfo.getResEntry (if negate then token.tail else token)
  if (lsInfo.resTable entry).orderType = .NA then none else some (if negate then -(entry + 1 : Int) else entry + 1)

/-- The writes to `order`, each with its index. -/
def parseOrder (lsInfo : LsInfo) (orderReq : List Char) : Parse × List (Nat × Int) :=
  parseTokens (orderEntry lsInfo) (fun nphase => nphase > NBUILTINDEX) .PARSE_BAD_NAME orderReq

def filterEntry (lsInfo : LsInfo) (token : List Char) : Option Int := do
  let entry ← lsInfo.getResEntry token
  if (lsInfo.resTable entry).dynamic = false ∨ (lsInfo.resTable entry).shared then none else some entry

/-- The writes to `indicies`. -/
def parseFilter (lsInfo : LsInfo) (filter : List Char) : Parse × List (Nat × Int) :=
  parseTokens (filterEntry lsInfo) (fun _ => false) .PARSE_BAD_FILTER filter

def named (entry : List Char → Option Int) (req : List Char) : Nat :=
  if req.all (· = ' ') then 0 else ((tokens (req.length + 1) req).takeWhile fun token => (entry token).isSome).length

variable {entry : List Char → Option Int} {full : Nat → Bool} {bad : Parse} {size : Nat}

theorem writeTokens_inBounds (hf : ∀ n ≤ size, full n = false) (ts : List (List Char)) (hn : n ≤ size) :
    (∀ w ∈ (writeTokens entry full bad ts n).2, w.1 < size) ↔ n + (ts.takeWhile fun t => (entry t).isSome).length ≤ size := by
  induction ts generalizing n with
  | nil => simpa [writeTokens] using hn
  | cons t ts ih =>
    cases he : entry t with
    | none => simpa [writeTokens, he] using hn
    | some e =>
      simp only [writeTokens, he, hf n hn, Bool.false_eq_true, if_false, forall_mem_cons, takeWhile_cons, Option.isSome_some,
        if_true, length_cons]
      constructor
      · rintro ⟨hlt, hr⟩
        have := (ih hlt).mp hr
        omega
      · intro hle
        exact ⟨by omega, (ih (by omega)).mpr (by omega)⟩

theorem parseTokens_inBounds (hf : ∀ n ≤ size, full n = false) (req : List Char) :
    (∀ w ∈ (parseTokens entry full bad req).2, w.1 < size) ↔ named entry req ≤ size := by
  unfold parseTokens named
  split
  · simp
  · rw [writeTokens_inBounds hf _ (Nat.zero_le size), Nat.zero_add]

/-- The arrays are written within their bounds iff no more names are accepted than they have elements. -/
theorem sections_inBounds_iff (lsInfo : LsInfo) (orderReq filter : List Char) :
    ((∀ w ∈ (parseOrder lsInfo orderReq).2, w.1 < NBUILTINDEX) ↔ named (orderEntry lsInfo) orderReq ≤ NBUILTINDEX) ∧
      ((∀ w ∈ (parseFilter lsInfo filter).2, w.1 < lsInfo.numIndx) ↔ named (filterEntry lsInfo) filter ≤ lsInfo.numIndx) := by
  constructor
  · refine parseTokens_inBounds (fun n hn => ?_) orderReq
    simpa using hn
  · exact parseTokens_inBounds (fun _ _ => rfl) filter

/-- One load index, which is named `ut`. -/
def oneIndex : LsInfo where
  getResEntry name := if name = "ut".toList then some 0 else none
  resTable _ := ⟨.INCR, true, false⟩
  numIndx := 1

/-- Its name twelve times in an order section and twice in a filter section. -/
theorem sections_not_inBounds :
    (NBUILTINDEX, 1) ∈ (parseOrder oneIndex "ut:ut:ut:ut:ut:ut:ut:ut:ut:ut:ut:ut".toList).2 ∧
      (oneIndex.numIndx, 0) ∈ (parseFilter oneIndex "ut:ut".toList).2 := by
  decide

end OpenLava.ResReq

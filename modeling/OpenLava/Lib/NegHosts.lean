import Mathlib.Algebra.BigOperators.Group.List.Basic
import Mathlib.Algebra.Order.Ring.Int
import Mathlib.Data.List.TakeWhile
import OpenLava.Lib.ConfGroups

/-!
# Host lists with excluded hosts

`resolveBatchNegHosts` writes down the hosts that a host list of `lsb.queues` or `lsb.hosts` names without those behind
a `~`. In a queue a host may have a preference level behind a `+`; a `!` at its end marks the first execution host.
`malloc` does not fail here.
-/

namespace OpenLava.NegHosts

open List ConfGroups

/-- `struct inNames`. The `+` between the two stands in the name of the source as a zero. -/
structure InNames where
  name : Word
  prf_level : Option Word
  deriving DecidableEq, Repr

/-- The name with the `+` put back. -/
def InNames.text (cell : InNames) : Word :=
  match cell.prf_level with
  | none => cell.name
  | some level => cell.name ++ '+' :: level

/-- The cell and its size. It is split at the first `+`, wherever that is from. -/
def fillCell (name : Word) (level : Option Word) : InNames × Int :=
  match level with
  | none => (⟨name, none⟩, name.length + 1)
  | some level =>
    let cell := name ++ '+' :: level
    (⟨cell.takeWhile (· ≠ '+'), some (cell.dropWhile (· ≠ '+')).tail⟩, name.length + 1 + (level.length + 1))

structure Tables where
  inTable : List InNames := []
  outTable : List Word := []
  size : Int := 0

def Tables.fill (ptr_level : Option Word) (t : Tables) (name : Word) : Tables :=
  let cell := fillCell name ptr_level
  { t with inTable := t.inTable ++ [cell.1], size := t.size + cell.2 }

section

variable (fuel : Nat) (groups : GroupTab) (names : HostNames)

def expandWordAll (ptr_level : Option Word) (t : Tables) : Tables :=
  (if names.hosts ≠ [] then names.hosts else names.clusterHosts).foldl (Tables.fill ptr_level) t

/-- A word behind `~`, compared with what `expandGrp` has left in the buffer. -/
def negWord (word : Word) (t : Tables) : Option (Except Int Tables) :=
  if word = [] then some (.error (-2))
  else if isHostName names word then some (.ok { t with outTable := t.outTable ++ [word] })
  else
    (expandGrp groups fuel word ('~' :: word)).bind fun r =>
      let word := r.2.tail
      if r.1 = [] then some (.error (-1))
      else if r.1.head? = some word ∧ word ≠ ALL ∧ word ≠ "others".toList ∧ word ≠ "none".toList then some (.ok t)
      else if ALL ∈ r.1 then some (.error (-3))
      else some (.ok { t with outTable := t.outTable ++ r.1 })

def levelOf (isQueue : Bool) (word : Word) : Option Word :=
  if isQueue ∧ '+' ∈ word then some (word.dropWhile (· ≠ '+')).tail else none

def nameOf (isQueue : Bool) (word : Word) : Word := if isQueue then word.takeWhile (· ≠ '+') else word

def levelOk (level : Option Word) : Bool := level.all fun l => l.head?.all Char.isDigit

def posWord (isQueue : Bool) (word : Word) (t : Tables) : Option (Except Int Tables) :=
  let ptr_level := levelOf isQueue word
  let word := nameOf isQueue word
  if levelOk ptr_level = false then some (.error (-2))
  else if word = ALL then some (.ok (expandWordAll names ptr_level t))
  else if isHostName names word then some (.ok (t.fill ptr_level word))
  else
    (expandGrp groups fuel word word).bind fun r =>
      if r.1 = [] then some (.error (-1))
      else if r.1.head? = some ALL then some (.ok (expandWordAll names ptr_level t))
      else some (.ok (r.1.foldl (Tables.fill ptr_level) t))

def readWords (isQueue : Bool) : List Word → Tables → Option (Except Int Tables)
  | [], t => some (.ok t)
  | word :: buffer, t =>
    match if word.head? = some '~' then negWord fuel groups names word.tail t
      else posWord fuel groups names isQueue word t with
    | some (.ok t) => readWords isQueue buffer t
    | r => r

/-- What is taken from the size; the mark of a first host is cut off before. -/
def cut (neg : Word) (cell : InNames) : Option Int :=
  if names.equalHost cell.name neg then some (cell.text.length + 1)
  else if 1 < cell.name.length ∧ cell.name.getLast? = some '!' ∧ cell.prf_level = none ∧
      isHostName names cell.name = false then
    if names.equalHost cell.name.dropLast neg then some (cell.name.dropLast.length + 1) else none
  else none

structure Left where
  inTable : List InNames
  (size result : Int)

def removeCells (neg : Word) : List InNames → Left → Left
  | [], l => l
  | cell :: cells, l =>
    match cut names neg cell with
    | some len => removeCells neg cells { l with size := l.size - len, result := l.result + 1 }
    | none => removeCells neg cells { l with inTable := l.inTable ++ [cell] }

def removeNeg (l : Left) (neg : Word) : Left := removeCells names neg l.inTable { l with inTable := [] }

/-- What is returned, the words of `outHosts`, and the number of bytes allocated for them. -/
structure Resolved where
  result : Int
  outHosts : List Word := []
  room : Int := 0
  deriving DecidableEq, Repr

def resolveBatchNegHosts (isQueue : Bool) (inHosts : List Word) : Option Resolved :=
  (readWords fuel groups names isQueue inHosts {}).map fun
    | .error result => { result }
    | .ok t =>
      let l := t.outTable.foldl (removeNeg names) ⟨t.inTable, t.size, 0⟩
      let room := l.size + t.inTable.length
      if l.size ≤ 0 then { result := -3 }
      else if l.result = 0 then { result := 0, outHosts := inHosts.filter (·.head? ≠ some '~'), room }
      else { result := l.result, outHosts := l.inTable.map InNames.text, room }

end

variable {n fuel : Nat} {groups : GroupTab} {names : HostNames} {isQueue : Bool}

theorem readWords_isSome (h : Graded groups n) (hf : n < fuel) (inHosts : List Word) (t : Tables) :
    (readWords fuel groups names isQueue inHosts t).isSome := by
  have he := fun word buffer => Option.isSome_iff_exists.mp (expandGrp_isSome h word buffer hf)
  have hn : ∀ word t, (negWord fuel groups names word t).isSome := fun word t => by
    obtain ⟨r, hr⟩ := he word ('~' :: word)
    rw [negWord, hr, Option.bind_some]
    dsimp only
    split_ifs <;> rfl
  have hpos : ∀ word t, (posWord fuel groups names isQueue word t).isSome := fun word t => by
    obtain ⟨r, hr⟩ := he (nameOf isQueue word) (nameOf isQueue word)
    rw [posWord, hr, Option.bind_some]
    split_ifs <;> rfl
  induction inHosts generalizing t with
  | nil => rfl
  | cons word inHosts ih =>
    have hw : (if word.head? = some '~' then negWord fuel groups names word.tail t
        else posWord fuel groups names isQueue word t).isSome := by
      split
      · exact hn _ _
      · exact hpos _ _
    obtain ⟨r, hr⟩ := Option.isSome_iff_exists.mp hw
    rw [readWords, hr]
    cases r with
    | error result => rfl
    | ok t => exact ih t

theorem resolveBatchNegHosts_isSome (h : Graded groups n) (hf : n < fuel) (inHosts : List Word) :
    (resolveBatchNegHosts fuel groups names isQueue inHosts).isSome := by
  rw [resolveBatchNegHosts, Option.isSome_map]
  exact readWords_isSome h hf inHosts {}

end OpenLava.NegHosts

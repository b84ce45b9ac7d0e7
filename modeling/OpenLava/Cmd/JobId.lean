import Mathlib.Tactic.Linarith
import OpenLava.Text

/-!
# Job ids on the command line

`getOneJobId` of `cmd.jobid.c` with the conversions of `lib.misc.c`, for a `long` of 64 bits. What goes to `stderr` is
the error.
-/

namespace OpenLava.JobId

open Text

def INFINIT_INT : Int := 0x7fffffff

def INFINIT_LONG_INT : Int := 0x7fffffff

def LSB_MAX_ARRAY_JOBID : Int := 0x0FFFFFFFF

def LSB_MAX_ARRAY_IDX : Int := 0x0FFFF

/-- A conversion to `int`. -/
def int (n : Int) : Int := n.bmod (2 ^ 32)

def LSB_JOBID (array_jobId array_idx : Int) : Int :=
  ((BitVec.ofInt 64 array_idx <<< 32) ||| BitVec.ofInt 64 array_jobId).toInt

def LSB_ARRAY_IDX (jobId : Int) : Int :=
  if jobId = -1 then 0 else int ((BitVec.ofInt 64 jobId >>> 32) &&& BitVec.ofInt 64 LSB_MAX_ARRAY_IDX).toInt

def LSB_ARRAY_JOBID (jobId : Int) : Int :=
  if jobId = -1 then -1 else int (BitVec.ofInt 64 jobId &&& BitVec.ofInt 64 LSB_MAX_ARRAY_JOBID).toInt

/-- What `strtol` and `%lld` give: the number, whether it was out of range, the rest. -/
structure Converted where
  number : Int
  erange : Bool
  rest : List Char

def strtol (word : List Char) : Converted :=
  match scanInt word with
  | none => ⟨0, false, word⟩
  | some (n, rest) =>
    if n < -2 ^ 63 then ⟨-2 ^ 63, true, rest⟩
    else if 2 ^ 63 ≤ n then ⟨2 ^ 63 - 1, true, rest⟩
    else ⟨n, false, rest⟩

def atoi (word : List Char) : Int := int (strtol word).number

/-- The number is kept in an `int` before it is compared. -/
def isint_ (word : List Char) : Bool :=
  let c := strtol word
  let number := int c.number
  word ≠ [] ∧ c.rest = [] ∧ c.erange = false ∧ number ≤ INFINIT_INT ∧ number > -INFINIT_INT

def isdigitstr_ (string : List Char) : Bool := string.all Char.isDigit

def islongint_ (word : List Char) : Bool :=
  let c := strtol word
  word ≠ [] ∧ isdigitstr_ word ∧ c.erange = false ∧ c.number ≤ INFINIT_LONG_INT ∧ c.number > -INFINIT_LONG_INT

def atoi64_ (word : List Char) : Int :=
  let c := strtol word
  if word ≠ [] ∧ c.erange = false ∧ c.number ≤ INFINIT_LONG_INT ∧ c.number > -INFINIT_LONG_INT then c.number else 0

def lsb_jobid2str (jobId : Int) : List Char :=
  if LSB_ARRAY_IDX jobId = 0 then decimal (LSB_ARRAY_JOBID jobId)
  else decimal (LSB_ARRAY_JOBID jobId) ++ ['['] ++ decimal (LSB_ARRAY_IDX jobId) ++ [']']

structure IdxList where
  (start stop step : Int)

abbrev IdxParse := List Char → Option (List IdxList)

def checkIdx (idx : IdxList) : Except (List Char) IdxList :=
  let idx := if idx.stop = INFINIT_INT then { idx with stop := LSB_MAX_ARRAY_IDX } else idx
  if idx.start > idx.stop then
    .error (decimal idx.start ++ ['-'] ++ decimal idx.stop ++ ": Job Array index invalid range.\n".toList)
  else if idx.start ≤ 0 ∨ idx.start > LSB_MAX_ARRAY_IDX then
    .error (decimal idx.start ++ ": Job Array index out of valid range.\n".toList)
  else if idx.stop ≤ 0 ∨ idx.stop > LSB_MAX_ARRAY_IDX then
    .error (decimal idx.stop ++ ": Job Array index out of valid range.\n".toList)
  else if idx.step ≤ 0 ∨ idx.step > LSB_MAX_ARRAY_IDX then
    .error (decimal idx.step ++ ": Job Array index step out of valid range.\n".toList)
  else .ok idx

def parseJobArrayIndex (idxparse : IdxParse) (jobName : List Char) : Except (List Char) (List IdxList) :=
  match idxparse (jobName.dropWhile (· ≠ '[')) with
  | none => .error (jobName ++ ": Bad job array index list.\n".toList)
  | some idxList => idxList.mapM checkIdx

/-- The text that is parsed: a number that is no `int` becomes an array element first. -/
def inJobIdStr (string : List Char) : List Char :=
  if '[' ∉ string ∧ isint_ string = false ∧ isdigitstr_ string ∧ islongint_ string ∧ atoi64_ string > 0 then
    lsb_jobid2str (atoi64_ string)
  else string

def illegalJobId (string : List Char) : List Char := string ++ ": Illegal job ID.\n".toList

def jobIdZero : List Char := "Job Id = 0 is out of valid range.\n".toList

def oneElementOnly (string : List Char) : List Char :=
  string ++ ": Illegal job array index. One element only.\n".toList

def getJobIdIndexList (idxparse : IdxParse) (string : List Char) : Except (List Char) (Int × Option (List IdxList)) :=
  let text := inJobIdStr string
  if '[' ∉ text then
    if isint_ text = false then .error (illegalJobId string)
    else if atoi text < 0 then .error (illegalJobId string)
    else .ok (atoi text, none)
  else
    let jobIdStr := text.takeWhile (· ≠ '[')
    if 16 ≤ jobIdStr.length then .error ("Job Id (".toList ++ string ++ ") is too long.\n".toList)
    else if isint_ jobIdStr = false then .error (illegalJobId string)
    -- `jobId > LSB_MAX_ARRAY_JOBID` compares as unsigned
    else if atoi jobIdStr ≤ 0 ∨ atoi jobIdStr % 2 ^ 32 > LSB_MAX_ARRAY_JOBID then
      .error (string ++ ": Job ID out of valid range.\n".toList)
    else
      match parseJobArrayIndex idxparse text with
      | .error e => .error e
      | .ok idxList => .ok (atoi jobIdStr, some idxList)

def getOneJobId (idxparse : IdxParse) (string : List Char) : Except (List Char) Int :=
  match getJobIdIndexList idxparse string with
  | .error e => .error e
  | .ok (jobId, idxListP) =>
    if jobId = 0 then .error jobIdZero
    else
      match idxListP with
      | none => .ok jobId
      | some [idx] =>
        if idx.start ≠ idx.stop ∨ idx.step ≠ 1 then .error (oneElementOnly string)
        else .ok (LSB_JOBID jobId idx.start)
      -- an empty list is the null pointer, and a longer one has a next range
      | some [] => .ok jobId
      | some _ => .error (oneElementOnly string)

theorem strtol_decimal (hl : -2 ^ 63 ≤ n) (hh : n < 2 ^ 63) : strtol (decimal n) = ⟨n, false, []⟩ := by
  have hs := scanInt_decimal n stops_nil
  rw [List.append_nil] at hs
  simp only [strtol, hs]
  rw [if_neg (by omega), if_neg (by omega)]

theorem decimal_ne_nil (n : Int) : decimal n ≠ [] := by
  unfold decimal
  split
  · simp
  · exact toDigits_ne_nil _

theorem bracket_notMem_decimal (n : Int) : '[' ∉ decimal n := by
  intro h
  rcases mem_decimal h with h | h
  · exact absurd h (by decide)
  · exact absurd h (by decide)

theorem isint_decimal (hl : -2 ^ 63 ≤ n) (hh : n < 2 ^ 63) : isint_ (decimal n) = true ↔ -INFINIT_INT < int n := by
  have hle : int n ≤ INFINIT_INT := by
    have := Int.bmod_lt (x := n) (m := 2 ^ 32) (by decide)
    simp only [int, INFINIT_INT]
    omega
  simp [isint_, strtol_decimal hl hh, decimal_ne_nil, hle]

theorem islongint_decimal (hn : INFINIT_LONG_INT < n) (hh : n < 2 ^ 63) : islongint_ (decimal n) = false := by
  have hl : -2 ^ 63 ≤ n := by simp only [INFINIT_LONG_INT] at hn; omega
  simp [islongint_, strtol_decimal hl hh, hn.not_ge]

theorem inJobIdStr_decimal (hn : INFINIT_LONG_INT < n) (hh : n < 2 ^ 63) : inJobIdStr (decimal n) = decimal n := by
  simp [inJobIdStr, islongint_decimal hn hh]

theorem getJobIdIndexList_decimal (idxparse : IdxParse) (hn : INFINIT_LONG_INT < n) (hh : n < 2 ^ 63) :
    getJobIdIndexList idxparse (decimal n) =
      if int n < 0 then .error (illegalJobId (decimal n)) else .ok (int n, none) := by
  have hl : -2 ^ 63 ≤ n := by simp only [INFINIT_LONG_INT] at hn; omega
  have ha : atoi (decimal n) = int n := by simp [atoi, strtol_decimal hl hh]
  simp only [getJobIdIndexList, inJobIdStr_decimal hn hh, bracket_notMem_decimal, not_false_iff, if_true, ha]
  by_cases hn : int n < 0
  · simp only [hn, if_true, ite_self]
  · have hi : isint_ (decimal n) = true := (isint_decimal hl hh).mpr (by simp only [INFINIT_INT]; omega)
    rw [if_neg (by simp [hi])]

theorem getOneJobId_decimal (idxparse : IdxParse) (hn : INFINIT_LONG_INT < n) (hh : n < 2 ^ 63) :
    getOneJobId idxparse (decimal n) =
      if int n < 0 then .error (illegalJobId (decimal n)) else if int n = 0 then .error jobIdZero else .ok (int n) := by
  rw [getOneJobId, getJobIdIndexList_decimal idxparse hn hh]
  by_cases hn : int n < 0
  · simp only [hn, if_true]
  · simp only [hn, if_false]

/-- An element's id is not taken for the array iff the array's id is no positive `int`. -/
theorem oneJobId_element_iff (idxparse : IdxParse) (a i : Int) (ha : 1 ≤ a ∧ a ≤ LSB_MAX_ARRAY_JOBID)
    (hi : 1 ≤ i ∧ i ≤ LSB_MAX_ARRAY_IDX) : ((∃ e, getOneJobId idxparse (decimal (i * 2 ^ 32 + a)) = .error e) ∨
      getOneJobId idxparse (decimal (i * 2 ^ 32 + a)) = .ok (i * 2 ^ 32 + a)) ↔ 2 ^ 31 ≤ a := by
  simp only [LSB_MAX_ARRAY_JOBID, LSB_MAX_ARRAY_IDX] at ha hi
  have hb : int (i * 2 ^ 32 + a) = if 2 ^ 31 ≤ a then a - 2 ^ 32 else a := by
    simp only [int, Int.bmod_def]
    split <;> omega
  rw [getOneJobId_decimal idxparse (by simp only [INFINIT_LONG_INT]; omega) (by omega), hb]
  by_cases hl : 2 ^ 31 ≤ a
  · rw [if_pos hl, if_pos (by omega)]
    exact iff_of_true (Or.inl ⟨_, rfl⟩) hl
  · rw [if_neg hl, if_neg (by omega), if_neg (by omega)]
    refine iff_of_false ?_ hl
    rintro (⟨e, he⟩ | hok)
    · cases he
    · have := Except.ok.inj hok
      omega

/-- Element 3 of array 2147483650 is rejected. -/
theorem oneJobId_element_large : (∃ e, getOneJobId (fun _ => none) (decimal (3 * 2 ^ 32 + 2147483650)) = .error e) ∨
      getOneJobId (fun _ => none) (decimal (3 * 2 ^ 32 + 2147483650)) = .ok (3 * 2 ^ 32 + 2147483650) :=
  (oneJobId_element_iff _ 2147483650 3 (by decide) (by decide)).mpr (by decide)

/-- `12884901895` is element 3 of array 7, and is taken for array 7. -/
theorem oneJobId_wholeArray : ¬ ((∃ e, getOneJobId (fun _ => none) "12884901895".toList = .error e) ∨
      getOneJobId (fun _ => none) "12884901895".toList = .ok (LSB_JOBID 7 3)) := by
  have hw : getOneJobId (fun _ => none) "12884901895".toList = .ok 7 := by rfl
  rw [hw]
  rintro (⟨e, he⟩ | hok)
  · cases he
  · exact absurd (Except.ok.inj hok) (by decide)

end OpenLava.JobId

import Mathlib.Data.List.DropRight
import OpenLava.Text

/-!
The quoting of strings and the reading of lines of `lib.words.c`. A quoted string doubles each quote in it. A line
reader turns every other white space into a blank and cuts the blanks at the end of a line, so a string that goes
through a line keeps its quotes but not its tabs.
-/

namespace OpenLava

open List Text

/-- The body of the loop of `addQStr`. -/
def doubled (str : List Char) : List Char := str.flatMap fun c => if c = '"' then ['"', '"'] else [c]

def addQStr (str : List Char) : List Char := ' ' :: '"' :: (doubled str ++ ['"'])

/-- The second loop of `stripQStr`, which starts behind the opening quote. -/
def unquote : List Char → Option (List Char × List Char)
  | [] => none
  | '"' :: '"' :: q => (unquote q).map fun p => ('"' :: p.1, p.2)
  | '"' :: q => some ([], q)
  | c :: q => (unquote q).map fun p => (c :: p.1, p.2)

/-- The string and what follows its closing quote. -/
def stripQStr (q : List Char) : Option (List Char × List Char) :=
  match q.dropWhile (· ≠ '"') with
  | [] => none
  | _ :: q => unquote q

def subNewLine (instr : List Char) : List Char := instr.filter (· ≠ '\n')

def blanked (c : Char) : Char := if isSpace c then ' ' else c

/-- `lpos` after the loop back over the blanks; it stops at the first character. -/
def lastPos (line : List Char) : Nat := (line.rdropWhile (· = ' ')).length - 1

/-- The line and what is left of the file, for `confFormat` false. -/
def getNextLineD (fp : List Char) : Option (List Char) × List Char :=
  let line := (fp.takeWhile (· ≠ '\n')).map blanked
  match fp.dropWhile (· ≠ '\n') with
  | _ :: fp => (some (line.take (lastPos line + 1)), fp)
  | [] =>
    -- the file has ended: `oneChar`, or something behind the first character
    if line.length = 1 ∨ 0 < lastPos line then (some (line.take (lastPos line + 1)), []) else (none, [])

/-- The calls of `getNextLineC_` that call it again skip a line each. -/
def getNextLineC : Nat → List Char → Option (List Char) × List Char
  | 0, fp => (none, fp)
  | calls + 1, fp =>
    match getNextLineD fp with
    | (none, fp) => (none, fp)
    | (some nextLine, fp) => if nextLine.any (· ≠ ' ') then (some nextLine, fp) else getNextLineC calls fp

/-- A line takes a character, so there are no more lines than characters. -/
def getNextLine (fp : List Char) : Option (List Char) × List Char := getNextLineC (fp.length + 1) fp

def Closed (rest : List Char) : Prop := rest.head? ≠ some '"'

variable {c : Char} {rest str line : List Char}

theorem unquote_cons (hc : c ≠ '"') (q : List Char) : unquote (c :: q) = (unquote q).map fun p => (c :: p.1, p.2) := by
  rw [unquote.eq_def]
  split <;> simp_all

theorem unquote_close (hq : Closed q) : unquote ('"' :: q) = some ([], q) := by
  cases q with
  | nil => simp [unquote]
  | cons c q =>
    have hc : c ≠ '"' := by simpa [Closed] using hq
    simp [unquote, hc]

theorem unquote_doubled (str : List Char) (hr : Closed rest) :
    unquote (doubled str ++ '"' :: rest) = some (str, rest) := by
  induction str with
  | nil => simpa [doubled] using unquote_close hr
  | cons c str ih =>
    rw [doubled, flatMap_cons, ← doubled, append_assoc]
    by_cases hc : c = '"'
    · simp [hc, unquote, ih]
    · simp [hc, unquote_cons, ih]

theorem eq_of_unquote (h : unquote q = some (str, rest)) : q = doubled str ++ '"' :: rest := by
  induction q using unquote.induct generalizing str with
  | case1 => simp [unquote] at h
  | case2 q ih =>
    obtain ⟨⟨str', rest'⟩, hq, heq⟩ := Option.map_eq_some_iff.mp (by simpa only [unquote] using h)
    obtain ⟨rfl, rfl⟩ := Prod.mk.inj heq
    simpa [doubled] using ih hq
  | case3 q hq =>
    have hclo : Closed q := by
      cases q with
      | nil => simp [Closed]
      | cons c q => simpa [Closed] using fun hc => hq q (by rw [hc])
    obtain ⟨rfl, rfl⟩ := Prod.mk.inj (Option.some.inj ((unquote_close hclo).symm.trans h))
    simp [doubled]
  | case4 c q hc2 hc ih =>
    have hne : c ≠ '"' := fun h => hc h
    rw [unquote_cons hne] at h
    obtain ⟨⟨str', rest'⟩, hq, heq⟩ := Option.map_eq_some_iff.mp h
    obtain ⟨rfl, rfl⟩ := Prod.mk.inj heq
    simpa [doubled, hne] using ih hq

theorem doubled_eq_self (h : '"' ∉ str) : doubled str = str := by
  induction str with
  | nil => rfl
  | cons c str ih =>
    simp only [mem_cons, not_or] at h
    simpa [doubled, Ne.symm h.1] using ih h.2

theorem quote_follows (h : str ++ '"' :: rest = replicate (n + 1) '"' ++ doubled str ++ '"' :: rest') : ¬ Closed rest := by
  induction str generalizing n with
  | nil =>
    simp [doubled, replicate_succ] at h
    cases n with
    | zero => simp [Closed, h]
    | succ n => simp [Closed, h, replicate_succ]
  | cons c str ih =>
    obtain ⟨rfl, h⟩ := List.cons.inj h
    refine ih (n := n + 1) (h.trans ?_)
    simp [doubled, replicate_succ', append_assoc]

theorem not_mem_of_plain (hr : Closed rest) (h : str ++ '"' :: rest = doubled str ++ '"' :: rest') : '"' ∉ str := by
  induction str with
  | nil => simp
  | cons c str ih =>
    by_cases hc : c = '"'
    · subst hc
      exact absurd hr (quote_follows (n := 0) (by simpa [doubled] using h))
    · simpa [Ne.symm hc] using ih (by simpa [doubled, hc] using h)

theorem unquote_raw_iff (str : List Char) (hr : Closed rest) :
    (∃ rest', unquote (str ++ '"' :: rest) = some (str, rest')) ↔ '"' ∉ str := by
  constructor
  · rintro ⟨rest', h⟩
    exact not_mem_of_plain hr (eq_of_unquote h)
  · intro hs
    exact ⟨rest, by simpa [doubled_eq_self hs] using unquote_doubled str hr⟩

theorem stripQStr_open (q : List Char) : stripQStr ('"' :: q) = unquote q := by simp [stripQStr]

theorem stripQStr_skip (hc : c ≠ '"') (q : List Char) : stripQStr (c :: q) = stripQStr q := by
  simp [stripQStr, hc]

theorem mem_doubled : c ∈ doubled str ↔ c ∈ str := by
  simp only [doubled, mem_flatMap]
  constructor
  · rintro ⟨a, ha, hc⟩
    split at hc <;> simp_all
  · intro hc
    exact ⟨c, hc, by split <;> simp_all⟩

theorem blanked_eq_quote : blanked c = '"' ↔ c = '"' := by
  unfold blanked
  split
  · next h =>
    refine iff_of_false (by decide) ?_
    rintro rfl
    exact absurd h (by decide)
  · rfl

theorem doubled_blanked (str : List Char) : doubled (str.map blanked) = (doubled str).map blanked := by
  induction str with
  | nil => rfl
  | cons c str ih =>
    simp only [doubled, map_cons, flatMap_cons, map_append, blanked_eq_quote] at ih ⊢
    rw [ih]
    split
    · next h => subst h; rfl
    · rfl

theorem map_blanked_eq_self (h : ∀ c ∈ str, isSpace c = true → c = ' ') : str.map blanked = str := by
  refine (map_congr_left fun c hc => ?_).trans (map_id str)
  unfold blanked
  split
  · next hs => exact (h c hc hs).symm
  · rfl

theorem subNewLine_no_newline (instr : List Char) : '\n' ∉ subNewLine instr := by simp [subNewLine]

theorem ne_newline (h : '\n' ∉ line) (hc : c ∈ line) : decide (c ≠ '\n') = true := by
  simpa using ne_of_mem_of_not_mem hc h

theorem subNewLine_eq_self (h : '\n' ∉ instr) : subNewLine instr = instr :=
  filter_eq_self.mpr fun _ => ne_newline h

/-- What `getNextLineD_` leaves of a line. -/
def trimmed (line : List Char) : List Char := (line.map blanked).rdropWhile (· = ' ')

theorem take_lastPos (h : line.rdropWhile (· = ' ') ≠ []) :
    line.take (lastPos line + 1) = line.rdropWhile (· = ' ') := by
  have hl : lastPos line + 1 = (line.rdropWhile (· = ' ')).length := by
    have := length_pos_iff.mpr h
    unfold lastPos
    omega
  rw [hl]
  exact prefix_iff_eq_take.mp (List.rdropWhile_prefix _ _) |>.symm

theorem getNextLineD_line (hl : '\n' ∉ line) (rest : List Char) : getNextLineD (line ++ '\n' :: rest) =
    (some ((line.map blanked).take (lastPos (line.map blanked) + 1)), rest) := by
  have hi : ∀ c ∈ line, decide (c ≠ '\n') = true := fun _ => ne_newline hl
  unfold getNextLineD
  rw [dropWhile_append_of_pos hi, takeWhile_append_of_pos hi]
  simp

theorem getNextLineC_line (hl : '\n' ∉ line) (hne : trimmed line ≠ []) (rest : List Char)
    (calls : Nat) : getNextLineC (calls + 1) (line ++ '\n' :: rest) = (some (trimmed line), rest) := by
  have ha : (trimmed line).any (· ≠ ' ') = true := by
    -- the last character that is left is not a blank
    have hlast := rdropWhile_last_not (fun c : Char => decide (c = ' ')) (line.map blanked) hne
    exact any_eq_true.mpr ⟨_, getLast_mem hne, decide_eq_true fun h => hlast (decide_eq_true h)⟩
  rw [getNextLineC, getNextLineD_line hl, take_lastPos hne]
  exact if_pos ha

theorem getNextLine_line (hl : '\n' ∉ line) (hne : trimmed line ≠ []) (rest : List Char) :
    getNextLine (line ++ '\n' :: rest) = (some (trimmed line), rest) :=
  getNextLineC_line hl hne rest _

theorem getNextLineC_blanks (hl : ∀ c ∈ line, c = ' ') (rest : List Char) (calls : Nat) :
    getNextLineC (calls + 1) (line ++ '\n' :: rest) = getNextLineC calls rest := by
  have hmap : line.map blanked = line := map_blanked_eq_self fun c hc _ => hl c hc
  have hn : '\n' ∉ line := fun h => absurd (hl _ h) (by decide)
  rw [getNextLineC, getNextLineD_line hn, hmap]
  refine if_neg fun ha => ?_
  obtain ⟨c, hc, hne⟩ := any_eq_true.mp ha
  exact absurd (hl c (mem_of_mem_take hc)) (by simpa using hne)

end OpenLava

import OpenLava.Lib.Words

/-!
The lines of the event log. A record is written as a list of pieces with a blank in front of each, and read by a
pointer that moves over the line. A reader that has read a number or a string stands at the blank behind it; most
readers then step over that blank. So there are two places to stand at in front of a list of pieces, `text` with its
blank and `line` without, and every reading is stated for both.
-/

namespace OpenLava.Log

open List Text

/-- The printing and scanning of floating point numbers, which is libc's. -/
structure FloatText (F : Type) where
  zero : F
  print : (width precision : Nat) → F → List Char
  scan : List Char → Option (F × List Char)
  rounded : (width precision : Nat) → F → F -- The number with the digits that are printed.
  scan_blank : ∀ text, scan (' ' :: text) = scan text -- Leading white space is skipped.
  /-- What is printed is scanned, up to the blank or the end behind it. -/
  scan_print : ∀ width precision v rest, (∀ c ∈ rest.head?, c = ' ') →
    scan (print width precision v ++ rest) = some (rounded width precision v, rest)
  /-- A printed number may be padded by blanks; it has no other white space. -/
  print_plain : ∀ width precision v, ∀ c ∈ print width precision v, isSpace c = true → c = ' '
  /-- The blanks stand in front of the number. -/
  print_last : ∀ width precision v, ∃ c, (print width precision v).getLast? = some c ∧ c ≠ ' '

/-- What the writers print after a blank. -/
inductive Piece (F : Type) where
  | int (i : Int)
  | float (width precision : Nat) (v : F)
  | qstr (str : List Char) -- `addQStr`
  | stripped (str : List Char) -- `subNewLine_`, then `addQStr`
  | raw (str : List Char) -- `%s` between quotes
  | nothing -- A second blank in a row.

variable {F : Type} (ft : FloatText F)

def Piece.body : Piece F → List Char
  | .int i => decimal i
  | .float width precision v => ft.print width precision v
  | .qstr str => '"' :: (doubled str ++ ['"'])
  | .stripped str => '"' :: (doubled (subNewLine str) ++ ['"'])
  | .raw str => '"' :: (str ++ ['"'])
  | .nothing => []

def text (pieces : List (Piece F)) : List Char := pieces.flatMap fun p => ' ' :: p.body ft

/-- A piece as `getNextLine_` leaves it. -/
def Piece.seen : Piece F → Piece F
  | .qstr str => .qstr (str.map blanked)
  | .stripped str => .qstr ((subNewLine str).map blanked)
  | .raw str => .raw (str.map blanked)
  | p => p

def Piece.strings : Piece F → List (List Char)
  | .qstr str => [str]
  | .raw str => [str]
  | _ => []

structure Written (F : Type) where
  pieces : List (Piece F)
  ending : List Char

def qstrs (strs : List (List Char)) : List (Piece F) := strs.flatMap fun str => [.qstr str]

def ints (is : List Int) : List (Piece F) := is.flatMap fun i => [.int i]

def shown (c : Bool) (pieces : List (Piece F)) : List (Piece F) := if c then pieces else []

def line (pieces : List (Piece F)) : List Char := (text ft pieces).drop 1

/-- `eventFormat` is `LSBE_EVENT_FORMAT`; `overrun`: an array has been written past its end. -/
inductive ReadError where
  | eventFormat
  | overrun
  deriving DecidableEq, Repr

/-- A reader moves the pointer `line` over the text of a record. -/
abbrev Scan := StateT (List Char) (Except ReadError)

namespace Scan

def ofOption {α : Type} (scan : List Char → Option (α × List Char)) : Scan α := fun line =>
  match scan line with
  | some p => .ok p
  | none => .error .eventFormat

/-- `%d` -/
def int : Scan Int := ofOption scanInt

/-- `%f` -/
def float : Scan F := ofOption ft.scan

/-- The `+ 1` of `line += ccount + 1`. -/
def skip : Scan Unit := fun line => .ok ((), line.drop 1)

def strip : Scan (List Char) := ofOption stripQStr

/-- The tests of `copyQStr`. -/
def Fits (maxLen : Nat) (nonNil : Bool) (str : List Char) : Prop := str.length < maxLen ∧ (nonNil → str ≠ [])
  deriving Decidable

theorem fits_of_lt (h : str.length < maxLen) : Fits maxLen false str := ⟨h, nofun⟩

def copyQStr (maxLen : Nat) (nonNil : Bool) : Scan (List Char) := do
  let str ← strip
  skip
  if Fits maxLen nonNil str then return str else throw .eventFormat

def saveQStr : Scan (List Char) := do
  let str ← strip
  skip
  return str

/-- `stripQStr` into an array of `size` characters on the stack. -/
def stripInto (size : Nat) : Scan (List Char) := do
  let str ← strip
  if str.length < size then
    skip
    return str
  else throw .overrun

/-- A field that is read under a condition, and 0 otherwise. -/
def given {α : Type} (c : Bool) (zero : α) (scan : Scan α) : Scan α := if c then scan else pure zero

/-- A loop that reads `n` elements of an array. -/
def times {α : Type} : Nat → Scan α → Scan (List α)
  | 0, _ => return []
  | n + 1, scan => do
    let a ← scan
    let as ← times n scan
    return a :: as

end Scan

def Ended (rest : List Char) : Prop := ∀ c ∈ rest.head?, c = ' '

theorem text_ended (ps : List (Piece F)) : Ended (text ft ps) := by
  cases ps with
  | nil => simp [Ended, text]
  | cons p ps => simp [Ended, text]

variable {ft}

theorem Ended.stops (h : Ended rest) : Stops rest := fun c hc => by rw [h c hc]; decide

theorem Ended.closed (h : Ended rest) : Closed rest := fun hq => absurd (h _ hq) (by decide)

theorem text_cons (p : Piece F) (ps : List (Piece F)) : text ft (p :: ps) = ' ' :: (p.body ft ++ text ft ps) := by
  simp [text]

theorem line_cons (p : Piece F) (ps : List (Piece F)) : line ft (p :: ps) = p.body ft ++ text ft ps := by
  simp [line, text_cons]

theorem decimal_plain (i : Int) : ∀ c ∈ decimal i, isSpace c = true → c = ' ' := by
  intro c hc hs
  rcases mem_decimal hc with rfl | hd
  · exact absurd hs (by decide)
  · exact absurd hs (by simp [isSpace_of_isDigit hd])

theorem body_seen (p : Piece F) : p.seen.body ft = (p.body ft).map blanked := by
  have hq : blanked '"' = '"' := rfl
  cases p with
  | int i => exact (map_blanked_eq_self (decimal_plain i)).symm
  | float width precision v => exact (map_blanked_eq_self (ft.print_plain width precision v)).symm
  | qstr str => simp [Piece.seen, Piece.body, doubled_blanked, hq]
  | stripped str => simp [Piece.seen, Piece.body, doubled_blanked, hq]
  | raw str => simp [Piece.seen, Piece.body, hq]
  | nothing => rfl

theorem text_seen (ps : List (Piece F)) : text ft (ps.map .seen) = (text ft ps).map blanked := by
  induction ps with
  | nil => rfl
  | cons p ps ih =>
    have hb : blanked ' ' = ' ' := rfl
    simp [text_cons, body_seen, ih, hb]

theorem not_newline_of_plain {str : List Char} (h : ∀ c ∈ str, isSpace c = true → c = ' ') : '\n' ∉ str :=
  fun hn => absurd (h _ hn (by decide)) (by decide)

theorem newline_mem_body {p : Piece F} : '\n' ∈ p.body ft ↔ ∃ str ∈ p.strings, '\n' ∈ str := by
  cases p with
  | int i => simpa [Piece.body, Piece.strings] using not_newline_of_plain (decimal_plain i)
  | float width precision v =>
    simpa [Piece.body, Piece.strings] using not_newline_of_plain (ft.print_plain width precision v)
  | qstr str => simp [Piece.body, Piece.strings, mem_doubled]
  | stripped str => simpa [Piece.body, Piece.strings, mem_doubled] using subNewLine_no_newline str
  | raw str => simp [Piece.body, Piece.strings]
  | nothing => simp [Piece.body, Piece.strings]

theorem newline_mem_text {ps : List (Piece F)} : '\n' ∈ text ft ps ↔ ∃ str ∈ ps.flatMap Piece.strings, '\n' ∈ str := by
  simp only [text, mem_flatMap, mem_cons, newline_mem_body]
  constructor
  · rintro ⟨p, hp, h | ⟨str, hs, hn⟩⟩
    · exact absurd h (by decide)
    · exact ⟨str, ⟨p, hp, hs⟩, hn⟩
  · rintro ⟨str, ⟨p, hp, hs⟩, hn⟩
    exact ⟨p, hp, .inr ⟨str, hs, hn⟩⟩

@[simp] theorem text_nil : text ft [] = [] := rfl

@[simp] theorem line_nil : line ft [] = [] := rfl

theorem decimal_last (i : Int) : ∃ c, (decimal i).getLast? = some c ∧ c ≠ ' ' := by
  have hne : decimal i ≠ [] := by
    unfold decimal
    split
    · simp
    · exact toDigits_ne_nil _
  refine ⟨(decimal i).getLast hne, List.getLast?_eq_some_getLast hne, fun h => ?_⟩
  rcases mem_decimal (getLast_mem hne) with hm | hd
  · exact absurd (h.symm.trans hm) (by decide)
  · exact absurd (h ▸ hd) (by decide)

theorem body_last (ft : FloatText F) {p : Piece F} (hp : p ≠ .nothing) : ∃ c, (p.body ft).getLast? = some c ∧ c ≠ ' ' := by
  have hq : ∀ str : List Char, ∃ c, ('"' :: (str ++ ['"'])).getLast? = some c ∧ c ≠ ' ' := fun str =>
    ⟨'"', by rw [← cons_append, List.getLast?_concat], by decide⟩
  cases p with
  | int i => exact decimal_last i
  | float width precision v => exact ft.print_last width precision v
  | qstr | stripped | raw => exact hq _
  | nothing => exact absurd rfl hp

theorem trimmed_text (front : List Char) (hlast : ps.getLast? = some p)
    (hp : p ≠ .nothing) : trimmed (front ++ text ft ps) = front.map blanked ++ text ft (ps.map .seen) := by
  obtain ⟨init, rfl⟩ := List.getLast?_eq_some_iff.mp hlast
  have hs : p.seen ≠ .nothing := by cases p <;> simp_all [Piece.seen]
  obtain ⟨c, hc, hne⟩ := body_last ft hs
  obtain ⟨body, hb⟩ := List.getLast?_eq_some_iff.mp hc
  have ht : front.map blanked ++ text ft ((init ++ [p]).map .seen) =
      (front.map blanked ++ (text ft (init.map .seen) ++ ' ' :: body)) ++ [c] := by
    simp [text, hb]
  rw [trimmed, map_append, ← text_seen, ht, rdropWhile_concat_neg _ _ _ (by simpa using hne)]

theorem text_raw (h : '"' ∉ str) : text ft (.raw str :: ps) = text ft (.qstr str :: ps) := by
  simp [text_cons, Piece.body, doubled_eq_self h]

theorem line_raw (h : '"' ∉ str) : line ft (.raw str :: ps) = line ft (.qstr str :: ps) :=
  congrArg (List.drop 1) (text_raw h)

def FloatText.whole : FloatText Int where
  zero := 0
  print _ _ v := decimal v
  scan := scanInt
  rounded _ _ v := v
  scan_blank := scanInt_spaces [' '] isSpace_blank
  scan_print _ _ v _ hrest := scanInt_decimal v (Ended.stops hrest)
  print_plain _ _ v := decimal_plain v
  print_last _ _ v := decimal_last v

namespace Scan

@[simp] theorem skip_text : skip.run (text ft ps) = .ok ((), line ft ps) := rfl

@[simp] theorem int_line (i : Int) : int.run (line ft (.int i :: ps)) = .ok (i, text ft ps) := by
  simp [int, ofOption, StateT.run, line_cons, Piece.body, scanInt_decimal i (text_ended ft ps).stops]

@[simp] theorem int_text (i : Int) : int.run (text ft (.int i :: ps)) = .ok (i, text ft ps) := by
  have hb := scanInt_spaces [' '] isSpace_blank (decimal i ++ text ft ps)
  simp only [cons_append, nil_append, scanInt_decimal i (text_ended ft ps).stops] at hb
  simp [int, ofOption, StateT.run, text_cons, Piece.body, hb]

@[simp] theorem float_line (width precision : Nat) (v : F) :
    (float ft).run (line ft (.float width precision v :: ps)) = .ok (ft.rounded width precision v, text ft ps) := by
  have h := ft.scan_print width precision v (text ft ps) (text_ended ft ps)
  simp [float, ofOption, StateT.run, line_cons, Piece.body, h]

theorem strip_text_cons (p : Piece F) : strip.run (text ft (p :: ps)) = strip.run (line ft (p :: ps)) := by
  simp [strip, ofOption, StateT.run, text_cons, line_cons, stripQStr_skip]

@[simp] theorem strip_line (str : List Char) : strip.run (line ft (.qstr str :: ps)) = .ok (str, text ft ps) := by
  have h := unquote_doubled str (text_ended ft ps).closed
  simp [strip, ofOption, StateT.run, line_cons, Piece.body, stripQStr_open, h]

theorem no_quote_of_strip_raw (h : strip.run (line ft (.raw str :: ps)) = .ok (str, rest)) : '"' ∉ str := by
  refine (unquote_raw_iff str (text_ended ft ps).closed).mp ⟨rest, ?_⟩
  simp only [strip, ofOption, StateT.run, line_cons, Piece.body, cons_append, append_assoc,
    nil_append, stripQStr_open] at h
  split at h
  · next p hp => rw [hp, Except.ok.inj h]
  · cases h

@[simp] theorem ok_bind (a : α) (f : α → Except ReadError β) : (Except.ok a >>= f) = f a := rfl

@[simp] theorem pure_run (a : α) (line : List Char) : (pure a : Scan α).run line = .ok (a, line) := rfl

theorem run'_eq_ok {scan : Scan α} {line : List Char} {a : α} :
    scan.run' line = .ok a ↔ ∃ line', scan.run line = .ok (a, line') := by
  rw [StateT.run'_eq]
  cases h : scan.run line with
  | error e => simp
  | ok p =>
    obtain ⟨b, line'⟩ := p
    simp

theorem ite_bind_eq_ok {α β : Type} [Decidable c] {a : α} {f : α → Except ReadError β}
    {b : β} : ((if c then Except.ok a else .error e) >>= f) = .ok b ↔ c ∧ f a = .ok b := by
  by_cases h : c
  · simp [h, ok_bind]
  · simpa [h] using fun h' => nomatch h'

@[simp] theorem copyQStr_line (maxLen : Nat) (nonNil : Bool) (str : List Char) :
    (copyQStr maxLen nonNil).run (line ft (.qstr str :: ps)) =
      if Fits maxLen nonNil str then .ok (str, line ft ps) else .error .eventFormat := by
  simp only [copyQStr, StateT.run_bind, strip_line, ok_bind, skip_text]
  split <;> rfl

@[simp] theorem copyQStr_text (maxLen : Nat) (nonNil : Bool) (str : List Char) :
    (copyQStr maxLen nonNil).run (text ft (.qstr str :: ps)) =
      if Fits maxLen nonNil str then .ok (str, line ft ps) else .error .eventFormat := by
  rw [← copyQStr_line]
  simp only [copyQStr, StateT.run_bind, strip_text_cons]

@[simp] theorem saveQStr_line (str : List Char) : saveQStr.run (line ft (.qstr str :: ps)) = .ok (str, line ft ps) := by
  simp only [saveQStr, StateT.run_bind, strip_line, ok_bind, skip_text]
  rfl

@[simp] theorem stripInto_line (size : Nat) (str : List Char) : (stripInto size).run (line ft (.qstr str :: ps)) =
      if str.length < size then .ok (str, line ft ps) else .error .overrun := by
  simp only [stripInto, StateT.run_bind, strip_line, ok_bind]
  split <;> rfl

def int1 : Scan Int := do
  let i ← int
  skip
  return i

@[simp] theorem int1_line (i : Int) : int1.run (line ft (.int i :: ps)) = .ok (i, line ft ps) := by
  simp only [int1, StateT.run_bind, int_line, ok_bind, skip_text]
  rfl

theorem given_line (h : scan.run (line ft (shownPieces ++ ps)) = .ok (a, line ft ps)) :
    (given c zero scan).run (line ft (shown c shownPieces ++ ps)) = .ok (if c then a else zero, line ft ps) := by
  cases c with
  | false => rfl
  | true => exact h

@[simp] theorem given_int1 (c : Bool) (zero i : Int) :
    (given c zero int1).run (line ft (shown c [.int i] ++ ps)) = .ok (if c then i else zero, line ft ps) :=
  given_line (int1_line i)

section

variable (ft) {value : α → β} {as : List α}

theorem times_line (h : ∀ a ∈ as, ∀ ps, scan.run (line ft (enc a ++ ps)) = .ok (value a, line ft ps)) :
    (times as.length scan).run (line ft (as.flatMap enc ++ ps)) = .ok (as.map value, line ft ps) := by
  induction as with
  | nil => rfl
  | cons a as ih =>
    have hr := h a (by simp) (as.flatMap enc ++ ps)
    have hrest := ih fun b hb => h b (by simp [hb])
    simp only [flatMap_cons, append_assoc, length_cons, times, StateT.run_bind, hr, hrest, ok_bind]
    rfl

theorem times_line_test [DecidablePred test]
    (h : ∀ a ps, scan.run (line ft (enc a ++ ps)) = if test a then .ok (value a, line ft ps) else .error e) :
    (times as.length scan).run (line ft (as.flatMap enc ++ ps)) =
      if ∀ a ∈ as, test a then .ok (as.map value, line ft ps) else .error e := by
  by_cases hall : ∀ a ∈ as, test a
  · rw [if_pos hall]
    exact times_line ft fun a ha ps => by rw [h, if_pos (hall a ha)]
  · rw [if_neg hall]
    induction as with
    | nil => simp at hall
    | cons a as ih =>
      simp only [flatMap_cons, append_assoc, length_cons, times, StateT.run_bind, h]
      by_cases ha : test a
      · have hr : ¬ ∀ b ∈ as, test b := fun hb => hall (by simpa [ha] using hb)
        simp only [if_pos ha, ok_bind, ih hr]
        rfl
      · rw [if_neg ha]
        rfl

end

@[simp] theorem times_int1 (is : List Int) :
    (times is.length int1).run (line ft (ints is ++ ps)) = .ok (is, line ft ps) := by
  have h : (times is.length int1).run (line ft (ints is ++ ps)) = .ok (is.map id, line ft ps) :=
    times_line ft fun i _ _ => int1_line i
  rwa [map_id] at h

@[simp] theorem times_stripInto (size : Nat) (f : List Char → List Char) (strs : List (List Char)) :
    (times strs.length (stripInto size)).run (line ft (strs.flatMap (fun str => [.qstr (f str)]) ++ ps)) =
      if ∀ str ∈ strs, (f str).length < size then .ok (strs.map f, line ft ps) else .error .overrun :=
  times_line_test ft fun str _ => stripInto_line size (f str)

@[simp] theorem times_stripInto_qstrs (size : Nat) (strs : List (List Char)) :
    (times strs.length (stripInto size)).run (line ft (qstrs strs ++ ps)) =
      if ∀ str ∈ strs, str.length < size then .ok (strs, line ft ps) else .error .overrun := by
  rw [qstrs]
  simpa only [map_id, id_eq] using times_stripInto size id strs

/-- What `stripQStr` returns. -/
def ccount (q : List Char) : Option Nat := (stripQStr q).map fun p => q.length - p.2.length

/-- What `addQStr` writes, behind any number of blanks. -/
def quoted (p : Nat × List Char) : List Char := replicate p.1 ' ' ++ addQStr p.2

theorem stripQStr_blanks (n : Nat) (str : List Char) (hr : Closed rest) :
    stripQStr (replicate n ' ' ++ '"' :: (doubled str ++ '"' :: rest)) = some (str, rest) := by
  induction n with
  | zero => rw [replicate_zero, nil_append, stripQStr_open, unquote_doubled str hr]
  | succ n ih => rw [replicate_succ, cons_append, stripQStr_skip (by decide), ih]

theorem quoted_closed (ps : List (Nat × List Char)) : Closed (ps.flatMap quoted) := by
  cases ps with
  | nil => simp [Closed]
  | cons p ps => cases hn : p.1 <;> simp [Closed, quoted, hn, addQStr, replicate_succ]

/-- A reader may have stepped over the first blank. -/
theorem times_quoted (ps : List (Nat × List Char)) (hd : d ≤ 1) :
    (times ps.length saveQStr).run ((ps.flatMap quoted).drop d) = .ok (ps.map Prod.snd, []) := by
  induction ps generalizing d with
  | nil =>
    rw [flatMap_nil, drop_nil]
    rfl
  | cons p ps ih =>
    have hl : ((p :: ps).flatMap quoted).drop d =
        replicate (p.1 + 1 - d) ' ' ++ '"' :: (doubled p.2 ++ '"' :: ps.flatMap quoted) := by
      have ho : (p :: ps).flatMap quoted =
          replicate (p.1 + 1) ' ' ++ '"' :: (doubled p.2 ++ '"' :: ps.flatMap quoted) := by
        simp [quoted, addQStr, replicate_succ', append_assoc]
      rw [ho, drop_append_of_le_length (by rw [length_replicate]; omega), drop_replicate]
    have hs := stripQStr_blanks (p.1 + 1 - d) p.2 (quoted_closed ps)
    have hsave : saveQStr.run (((p :: ps).flatMap quoted).drop d) = .ok (p.2, (ps.flatMap quoted).drop 1) := by
      simp only [hl, saveQStr, strip, ofOption, skip, StateT.run, bind, StateT.bind, hs]
      rfl
    simp only [length_cons, times, StateT.run_bind, hsave, ok_bind, ih le_rfl]
    rfl

/-- A string that `addQStr` has written is read to its last quote, and a line of them is split. -/
theorem stripQStr_splits : (∀ s r : List Char, Closed r →
      stripQStr (addQStr s ++ r) = some (s, r) ∧ ccount (addQStr s ++ r) = some (addQStr s).length) ∧
    ∀ ps : List (Nat × List Char), (times ps.length saveQStr).run (ps.flatMap quoted) = .ok (ps.map Prod.snd, []) := by
  constructor
  · intro s r hr
    have hs : stripQStr (addQStr s ++ r) = some (s, r) := by simpa [addQStr] using stripQStr_blanks 1 s hr
    exact ⟨hs, by simp [ccount, hs]⟩
  · exact fun ps => times_quoted ps (Nat.zero_le 1)

/-- `"a""b" 7` -/
theorem stripQStr_splits_quote : stripQStr (addQStr ['a', '"', 'b'] ++ [' ', '7']) = some (['a', '"', 'b'], [' ', '7']) :=
  (stripQStr_splits.1 _ _ (by simp [Closed])).1

theorem strip_int (i : Int) : strip.run (line ft (.int i :: ps)) = strip.run (text ft ps) := by
  have hdig : ∀ c ∈ decimal i, decide (c ≠ '"') = true := by
    intro c hc
    rcases mem_decimal hc with rfl | hd
    · decide
    · exact decide_eq_true fun h => absurd (h ▸ hd) (by decide)
  simp only [strip, ofOption, StateT.run, line_cons, Piece.body, stripQStr, dropWhile_append_of_pos hdig]

theorem copyQStr_congr {line line' : List Char}
    (h : strip.run line = strip.run line') : (copyQStr maxLen nonNil).run line = (copyQStr maxLen nonNil).run line' := by
  simp only [copyQStr, StateT.run_bind, h]

@[simp] theorem copyQStr_int (maxLen : Nat) (nonNil : Bool) (i : Int) :
    (copyQStr maxLen nonNil).run (line ft (.int i :: ps)) = (copyQStr maxLen nonNil).run (text ft ps) :=
  copyQStr_congr (strip_int i)

@[simp] theorem copyQStr_text_int (maxLen : Nat) (nonNil : Bool) (i : Int) :
    (copyQStr maxLen nonNil).run (text ft (.int i :: ps)) = (copyQStr maxLen nonNil).run (text ft ps) :=
  copyQStr_congr ((strip_text_cons _).trans (strip_int i))

/-- Whatever a reading of `scan` returns has the property. -/
def Yields {α : Type} (scan : Scan α) (property : α → Prop) : Prop :=
  ∀ line a line', scan.run line = .ok (a, line') → property a

theorem yields_pure (h : property a) : Yields (pure a) property := by
  intro line b line' hb
  obtain ⟨rfl, -⟩ := Prod.mk.inj (Except.ok.inj hb)
  exact h

theorem yields_bind (h : ∀ a, Yields (f a) property) : Yields (scan >>= f) property := by
  intro line b line' hb
  rw [StateT.run_bind] at hb
  cases hs : scan.run line with
  | error e => rw [hs] at hb; cases hb
  | ok p => rw [hs] at hb; exact h p.1 p.2 b line' hb

end Scan

end OpenLava.Log

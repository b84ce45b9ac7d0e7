import Mathlib.Data.List.Basic
import Mathlib.Data.Int.Basic

/-!
Numbers in text, as `printf` and `scanf` treat them. A text is a list of characters, and its end is the end of the
list. A scan gives the value and what is left of the text.
-/

namespace Text

open List

/-- `isspace` in the C locale. -/
def isSpace (c : Char) : Bool :=
  c = ' ' || c = '\t' || c = '\n' || c = '\x0b' || c = '\x0c' || c = '\r'

/-- `%d` of `printf`. -/
def decimal (i : Int) : List Char :=
  if i < 0 then '-' :: Nat.toDigits 10 i.natAbs else Nat.toDigits 10 i.natAbs

def scanDigits (text : List Char) : Option (Nat × List Char) :=
  let digits := text.takeWhile Char.isDigit
  if digits = [] then none else some (Nat.ofDigitChars 10 digits 0, text.dropWhile Char.isDigit)

/-- `%d` of `scanf`: white space, a sign, and digits. -/
def scanInt (text : List Char) : Option (Int × List Char) :=
  match text.dropWhile isSpace with
  | '-' :: rest => (scanDigits rest).map fun p => (-(p.1 : Int), p.2)
  | '+' :: rest => (scanDigits rest).map fun p => ((p.1 : Int), p.2)
  | rest => (scanDigits rest).map fun p => ((p.1 : Int), p.2)

/-- No number goes on into what follows. -/
def Stops (rest : List Char) : Prop := ∀ c ∈ rest.head?, c.isDigit = false

theorem stops_nil : Stops [] := by simp [Stops]

theorem isSpace_of_isDigit (h : c.isDigit = true) : isSpace c = false := by
  have hge : '0' ≤ c := by
    simp only [Char.isDigit, Bool.and_eq_true, decide_eq_true_eq] at h
    exact h.1
  unfold isSpace
  simp only [Bool.or_eq_false_iff, decide_eq_false_iff_not]
  refine ⟨⟨⟨⟨⟨?_, ?_⟩, ?_⟩, ?_⟩, ?_⟩, ?_⟩ <;> · rintro rfl; exact absurd hge (by decide)

theorem isDigit_of_mem (hc : c ∈ Nat.toDigits 10 n) : c.isDigit = true :=
  Nat.isDigit_of_mem_toDigits (by decide) (by decide) hc

theorem toDigits_ne_nil (n : Nat) : Nat.toDigits 10 n ≠ [] := length_pos_iff.mp Nat.length_toDigits_pos

theorem scanDigits_toDigits (n : Nat) (hr : Stops rest) : scanDigits (Nat.toDigits 10 n ++ rest) = some (n, rest) := by
  have ht : (Nat.toDigits 10 n ++ rest).takeWhile Char.isDigit = Nat.toDigits 10 n := by
    rw [takeWhile_append_of_pos fun c hc => isDigit_of_mem hc]
    cases rest with
    | nil => simp
    | cons c rest => simp [hr c (by simp)]
  have hd : (Nat.toDigits 10 n ++ rest).dropWhile Char.isDigit = rest := by
    rw [dropWhile_append_of_pos fun c hc => isDigit_of_mem hc]
    cases rest with
    | nil => simp
    | cons c rest => simp [hr c (by simp)]
  simp [scanDigits, ht, hd, Nat.ofDigitChars_ten_toDigits]

theorem scanInt_spaces (spaces : List Char) (hs : ∀ c ∈ spaces, isSpace c = true) (text : List Char) :
    scanInt (spaces ++ text) = scanInt text := by
  simp only [scanInt, dropWhile_append_of_pos hs]

theorem isSpace_blank : ∀ c ∈ [' '], isSpace c = true := by simp [isSpace]

/-- What `%d` prints, `%d` reads. -/
theorem scanInt_decimal (i : Int) (hr : Stops rest) : scanInt (decimal i ++ rest) = some (i, rest) := by
  by_cases hi : i < 0
  · have hv : -((i.natAbs : Nat) : Int) = i := by omega
    unfold scanInt decimal
    rw [if_pos hi, cons_append, dropWhile_cons_of_neg (by simp [isSpace])]
    simp only [scanDigits_toDigits _ hr, Option.map_some, hv]
  · have hv : ((i.natAbs : Nat) : Int) = i := by omega
    obtain ⟨c, digits, hd⟩ := exists_cons_of_ne_nil (toDigits_ne_nil i.natAbs)
    have hc : c.isDigit = true := isDigit_of_mem (n := i.natAbs) (by simp [hd])
    have hs : scanDigits (c :: (digits ++ rest)) = some (i.natAbs, rest) := by
      simpa [hd] using scanDigits_toDigits i.natAbs hr
    -- the first character is a digit, so it is neither white space nor a sign
    have hmin : c ≠ '-' := by rintro rfl; exact absurd hc (by decide)
    have hplus : c ≠ '+' := by rintro rfl; exact absurd hc (by decide)
    unfold scanInt decimal
    rw [if_neg hi, hd, cons_append, dropWhile_cons_of_neg (by simp [isSpace_of_isDigit hc])]
    split
    · next h => exact absurd (List.cons.inj h).1 hmin
    · next h => exact absurd (List.cons.inj h).1 hplus
    · simp only [hs, Option.map_some, hv]

theorem mem_decimal (hc : c ∈ decimal i) : c = '-' ∨ c.isDigit = true := by
  unfold decimal at hc
  split at hc
  · rcases mem_cons.mp hc with rfl | hc
    · exact Or.inl rfl
    · exact Or.inr (isDigit_of_mem hc)
  · exact Or.inr (isDigit_of_mem hc)

end Text

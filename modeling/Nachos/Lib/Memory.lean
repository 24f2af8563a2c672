import Mathlib.Algebra.Group.Int.Defs
import Mathlib.Data.Nat.Basic
import Mathlib.Tactic.Common

/-!
# Bytes in memory

A memory is a byte at each address. What a program does with it is copying stretches of bytes
(`copy`) and reading and writing integers of four bytes, least significant byte first.
-/

namespace Lib

abbrev Byte := BitVec 8

abbrev Mem := Nat → Byte

namespace Mem

variable {m m' dst src : Mem} {p q n a b i k : Nat} {w : BitVec 32} {v : Int}

/-- `bcopy(&src[p], &dst[q], n)`. -/
def copy (dst : Mem) (q : Nat) (src : Mem) (p n : Nat) : Mem :=
  fun i => if q ≤ i ∧ i < q + n then src (p + (i - q)) else dst i

theorem copy_in (h : q ≤ i ∧ i < q + n) : copy dst q src p n i = src (p + (i - q)) := if_pos h

theorem copy_out (h : i < q ∨ q + n ≤ i) : copy dst q src p n i = dst i :=
  if_neg (by omega)

theorem copy_at (h : k < n) : copy dst q src p n (q + k) = src (p + k) := by
  rw [copy_in (by omega), show q + k - q = k by omega]

@[simp] theorem copy_zero : copy dst q src p 0 = dst := by
  funext i
  exact copy_out (by omega)

/-! ### Words -/

/-- The four bytes from `a` on, as a word. -/
def wordAt (m : Mem) (a : Nat) : BitVec 32 := m (a + 3) ++ m (a + 2) ++ m (a + 1) ++ m a

def putWord (m : Mem) (a : Nat) (w : BitVec 32) : Mem :=
  copy m a (fun k => w.extractLsb' (8 * k) 8) 0 4

theorem wordAt_congr (h : ∀ k < 4, m (a + k) = m' (b + k)) : wordAt m a = wordAt m' b := by
  unfold wordAt
  rw [h 3 (by omega), h 2 (by omega), h 1 (by omega), show m a = m' b from h 0 (by omega)]

theorem wordAt_putWord_self : wordAt (putWord m a w) a = w := by
  have hbyte : ∀ k < 4, putWord m a w (a + k) = w.extractLsb' (8 * k) 8 := fun k hk => by
    rw [putWord, copy_at hk, Nat.zero_add]
  unfold wordAt
  rw [hbyte 3 (by omega), hbyte 2 (by omega), hbyte 1 (by omega),
    show putWord m a w a = _ from hbyte 0 (by omega)]
  apply BitVec.eq_of_getLsbD_eq
  intro i hi
  simp only [BitVec.getLsbD_append, BitVec.getLsbD_extractLsb']
  by_cases h1 : i < 8
  · simp [h1]
  · by_cases h2 : i - 8 < 8
    · rw [if_neg h1, if_pos h2, show 8 * 1 + (i - 8) = i by omega]
      simp [h2]
    · by_cases h3 : i - 8 - 8 < 8
      · rw [if_neg h1, if_neg h2, if_pos h3, show 8 * 2 + (i - 8 - 8) = i by omega]
        simp [h3]
      · rw [if_neg h1, if_neg h2, if_neg h3, show 8 * 3 + (i - 8 - 8 - 8) = i by omega]
        simp [show i - 8 - 8 - 8 < 8 by omega]

theorem wordAt_copy_out (h : a + 4 ≤ q ∨ q + n ≤ a) :
    wordAt (copy dst q src p n) a = wordAt dst a :=
  wordAt_congr fun j hj => copy_out (by omega)

theorem wordAt_putWord_of_ne (h : a + 4 ≤ b ∨ b + 4 ≤ a) :
    wordAt (putWord m b w) a = wordAt m a :=
  wordAt_copy_out h

/-! ### Integers -/

def intAt (m : Mem) (a : Nat) : Int := (wordAt m a).toInt

def putInt (m : Mem) (a : Nat) (v : Int) : Mem := putWord m a (BitVec.ofInt 32 v)

theorem putInt_out (h : i < a ∨ a + 4 ≤ i) : putInt m a v i = m i := by
  unfold putInt putWord
  exact copy_out h

theorem intAt_congr (h : ∀ k < 4, m (a + k) = m' (b + k)) : intAt m a = intAt m' b :=
  congrArg BitVec.toInt (wordAt_congr h)

theorem intAt_putInt_self (h : -2 ^ 31 ≤ v ∧ v < 2 ^ 31) : intAt (putInt m a v) a = v := by
  unfold intAt putInt
  rw [wordAt_putWord_self, BitVec.toInt_ofInt]
  exact Int.bmod_eq_of_le (by omega) (by omega)

theorem intAt_putInt_of_ne (h : a + 4 ≤ b ∨ b + 4 ≤ a) : intAt (putInt m b v) a = intAt m a :=
  congrArg BitVec.toInt (wordAt_putWord_of_ne h)

end Mem

end Lib

import Mathlib.Tactic.Ring
import Nachos.Machine.Instruction

/-!
# The simulated processor: multiplying

The loop of `Mult` goes through the bits of one factor and adds the other one, shifted, in two
words. It leaves when no bit is left. The two words are the exact product (`Mult_exact`).
-/

namespace Nachos.Machine

namespace MultState

/-- The two words of the product. -/
def product (s : MultState) : Nat := s.hi.toNat * 2 ^ 32 + s.lo.toNat

/-- The two words of the shifted factor. -/
def factor (s : MultState) : Nat := s.bHi.toNat * 2 ^ 32 + s.bLo.toNat

variable {s : MultState} {A B i n : Nat}

theorem add_product (h : s.product + s.factor < 2 ^ 64) :
    s.add.product = s.product + s.factor := by
  have hlo := s.lo.isLt
  have hbLo := s.bLo.isLt
  unfold product factor at h ⊢
  have hsum : (s.lo + s.bLo).toNat = (s.lo.toNat + s.bLo.toNat) % 2 ^ 32 := BitVec.toNat_add ..
  show ((if s.lo + s.bLo < s.bLo then s.hi + 1 else s.hi) + s.bHi).toNat * 2 ^ 32 +
    (s.lo + s.bLo).toNat = _
  by_cases hcarry : s.lo + s.bLo < s.bLo
  · rw [if_pos hcarry, BitVec.toNat_add, BitVec.toNat_add, hsum]
    rw [BitVec.lt_def, hsum] at hcarry
    have hone : (1 : Word).toNat = 1 := rfl
    omega
  · rw [if_neg hcarry, BitVec.toNat_add, hsum]
    rw [BitVec.lt_def, hsum] at hcarry
    omega

/-- The highest bit of a word. -/
theorem and_high (x : Word) : x &&& 0x80000000#32 ≠ 0 ↔ 2 ^ 31 ≤ x.toNat := by
  have hpow : (0x80000000#32 : Word) = BitVec.twoPow 32 31 := by decide
  have hmsb : x.getLsbD 31 = decide (2 ^ 31 ≤ x.toNat) := BitVec.msb_eq_decide x ▸ rfl
  have hne : BitVec.twoPow 32 31 ≠ 0#32 := by decide
  rw [hpow, BitVec.and_twoPow, hmsb]
  by_cases h : 2 ^ 31 ≤ x.toNat
  · rw [if_pos (decide_eq_true h)]
    exact ⟨fun _ => h, fun _ => hne⟩
  · rw [if_neg (by rw [decide_eq_true_iff]; exact h)]
    exact ⟨fun hnot => absurd rfl hnot, fun hle => absurd hle h⟩

theorem and_low (x : Word) : x &&& 1#32 ≠ 0 ↔ x.getLsbD 0 = true := by
  have hpow : (1#32 : Word) = BitVec.twoPow 32 0 := by decide
  have hne : BitVec.twoPow 32 0 ≠ 0#32 := by decide
  rw [hpow, BitVec.and_twoPow]
  by_cases h : x.getLsbD 0 = true
  · rw [if_pos h]
    exact ⟨fun _ => h, fun _ => hne⟩
  · rw [if_neg h]
    exact ⟨fun hnot => absurd rfl hnot, fun hset => absurd hset h⟩

theorem and_rest {x : Word} (h : x &&& 0xfffffffe#32 = 0) {j : Nat} (hpos : 0 < j) (hj : j < 32) :
    x.getLsbD j = false := by
  have hnot : (0xfffffffe#32 : Word) = ~~~1#32 := by decide
  have hset : (0xfffffffe#32 : Word).getLsbD j = true := by
    rw [hnot, BitVec.getLsbD_not, BitVec.getLsbD_one]
    simp [hj, hpos.ne']
  have hbit : (x &&& 0xfffffffe#32).getLsbD j = false := by
    rw [h]
    exact BitVec.getLsbD_zero
  rw [BitVec.getLsbD_and, hset, Bool.and_true] at hbit
  exact hbit

theorem shift_factor (h : 2 * s.factor < 2 ^ 64) : s.shift.factor = 2 * s.factor := by
  have hbLo := s.bLo.isLt
  have hbHi := s.bHi.isLt
  unfold factor at h ⊢
  have hlo : (s.bLo <<< 1).toNat = 2 * s.bLo.toNat % 2 ^ 32 := by
    rw [BitVec.toNat_shiftLeft, Nat.shiftLeft_eq]
    omega
  have hhi : (s.bHi <<< 1).toNat = 2 * s.bHi.toNat := by
    rw [BitVec.toNat_shiftLeft, Nat.shiftLeft_eq]
    omega
  have heven : s.bHi <<< 1 &&& 1#32 = 0#32 := by
    by_contra hodd
    have hbit := (and_low _).mp hodd
    simp at hbit
  show ((s.bHi <<< 1) ||| (if s.bLo &&& 0x80000000#32 ≠ 0 then 1#32 else 0#32)).toNat * 2 ^ 32 +
    (s.bLo <<< 1).toNat = _
  by_cases hcarry : s.bLo &&& 0x80000000#32 ≠ 0
  · rw [if_pos hcarry, ← BitVec.add_eq_or_of_and_eq_zero _ _ heven, BitVec.toNat_add, hlo, hhi]
    rw [and_high] at hcarry
    simp only [BitVec.toNat_ofNat]
    omega
  · rw [if_neg hcarry, BitVec.or_zero, hlo, hhi]
    rw [and_high] at hcarry
    omega

/-- What the loop has done before a turn: the product of the lowest `i` bits of `A`. -/
structure Turn (A B i : Nat) (s : MultState) : Prop where
  bits : ∀ j, i + j < 32 → s.a.getLsbD j = A.testBit (i + j)
  factor : s.factor = B * 2 ^ i
  product : s.product = A % 2 ^ i * B

/-- One more bit, and what it adds. -/
theorem mod_succ (A B i : Nat) :
    A % 2 ^ (i + 1) * B = A % 2 ^ i * B + if A.testBit i then B * 2 ^ i else 0 := by
  rw [Nat.mod_pow_succ, Nat.testBit_eq_decide_div_mod_eq]
  rcases Nat.mod_two_eq_zero_or_one (A / 2 ^ i) with hbit | hbit
  · rw [hbit, Nat.mul_zero, Nat.add_zero, if_neg (by simp), Nat.add_zero]
  · rw [hbit, if_pos (by simp)]
    ring

theorem Turn.add (h : Turn A B i s) (hbit : A.testBit i = true) (hi : i < 32) (hB : B < 2 ^ 32) :
    s.add.product = A % 2 ^ (i + 1) * B := by
  have hsucc := mod_succ A B i
  rw [if_pos hbit] at hsucc
  rw [hsucc, ← h.product, ← h.factor]
  apply add_product
  rw [h.product, h.factor, ← hsucc]
  have hmod : A % 2 ^ (i + 1) < 2 ^ (i + 1) := Nat.mod_lt _ (Nat.two_pow_pos _)
  have hpow : 2 ^ (i + 1) ≤ 2 ^ 32 := Nat.pow_le_pow_right (by decide) (by omega)
  calc A % 2 ^ (i + 1) * B ≤ 2 ^ 32 * B := Nat.mul_le_mul_right _ (by omega)
    _ < 2 ^ 64 := by omega

theorem Turn.next {s₀ : MultState} (h : Turn A B i s) (hi : i < 32) (hB : B < 2 ^ 32)
    (ha : s₀.a = s.a) (hfactor : s₀.factor = s.factor)
    (hproduct : s₀.product = A % 2 ^ (i + 1) * B) : Turn A B (i + 1) s₀.shift := by
  refine ⟨fun j hj => ?_, ?_, hproduct⟩
  · show (s₀.a.sshiftRight 1).getLsbD j = _
    rw [BitVec.getLsbD_sshiftRight, ha, if_pos (by omega), h.bits _ (by omega)]
    have hw : ¬ 32 ≤ j := by omega
    simp [hw, Nat.add_assoc]
  · have hpow : B * 2 ^ (i + 1) = 2 * (B * 2 ^ i) := by ring
    rw [shift_factor, hfactor, h.factor, hpow]
    rw [hfactor, h.factor, ← hpow]
    calc B * 2 ^ (i + 1) ≤ B * 2 ^ 32 :=
          Nat.mul_le_mul_left _ (Nat.pow_le_pow_right (by decide) (by omega))
      _ < 2 ^ 64 := by omega

/-- Where no bit is left, the product is that of all of `A`. -/
theorem Turn.last (h : Turn A B i s) (hA : A < 2 ^ 32) (hrest : s.a &&& 0xfffffffe#32 = 0) :
    A % 2 ^ (i + 1) = A := by
  apply Nat.mod_eq_of_lt
  apply Nat.lt_pow_two_of_testBit
  intro k hk
  by_cases hlt : k < 32
  · have hbit := h.bits (k - i) (by omega)
    rw [and_rest hrest (by omega) (by omega), show i + (k - i) = k by omega] at hbit
    exact hbit.symm
  · exact Nat.testBit_lt_two_pow (lt_of_lt_of_le hA (Nat.pow_le_pow_right (by decide) (by omega)))

/-- **The loop multiplies.** -/
theorem loop_product (hA : A < 2 ^ 32) (hB : B < 2 ^ 32) (h : Turn A B i s) (hn : i + n = 32) :
    (loop n s).product = A * B := by
  induction n generalizing i s with
  | zero =>
    obtain rfl : i = 32 := hn
    rw [loop, h.product, Nat.mod_eq_of_lt hA]
  | succ n ih =>
    have hbit := h.bits 0 (by omega)
    rw [Nat.add_zero] at hbit
    unfold loop
    split
    · rename_i hodd
      have hset : A.testBit i = true := hbit.symm.trans ((and_low _).mp hodd)
      have hadd := h.add hset (by omega) hB
      split
      · rename_i hrest
        rw [hadd, h.last hA hrest]
      · exact ih (h.next (by omega) hB rfl rfl hadd) (by omega)
    · rename_i heven
      have hclear : A.testBit i = false := by
        rw [← hbit]
        exact Bool.eq_false_iff.mpr ((and_low _).not.mp heven)
      refine ih (h.next (by omega) hB rfl rfl ?_) (by omega)
      rw [h.product, mod_succ, hclear]
      rfl

end MultState

theorem append_toNat (hi lo : Word) : (hi ++ lo).toNat = hi.toNat * 2 ^ 32 + lo.toNat := by
  rw [BitVec.toNat_append, ← Nat.shiftLeft_add_eq_or_of_lt lo.isLt, Nat.shiftLeft_eq]

/-- The start of the loop. -/
theorem loop_start (a b : Word) :
    (MultState.loop 32 ⟨a, 0, b, 0, 0⟩).product = a.toNat * b.toNat := by
  refine MultState.loop_product (i := 0) a.isLt b.isLt ⟨fun j _ => ?_, ?_, ?_⟩ rfl
  · rw [Nat.zero_add]
    rfl
  · simp [MultState.factor]
  · simp [MultState.product, Nat.mod_one]

/-- The magnitude of a factor. -/
theorem toNat_magnitude (a : Word) : (if a.slt 0 then -a else a).toNat = a.toInt.natAbs := by
  have hlt := a.isLt
  have hzero : (0 : Word).toInt = 0 := rfl
  have hint := BitVec.toInt_eq_toNat_cond a
  rw [BitVec.slt_eq_decide, hzero]
  by_cases hneg : a.toInt < 0
  · rw [if_pos (decide_eq_true hneg), BitVec.toNat_neg]
    split at hint <;> omega
  · rw [if_neg (by rw [decide_eq_true_iff]; exact hneg)]
    split at hint <;> omega

theorem natAbs_le (a : Word) : a.toInt.natAbs ≤ 2 ^ 31 := by
  have hlt := a.isLt
  have hint := BitVec.toInt_eq_toNat_cond a
  split at hint <;> omega

/-- The sign of a product. -/
theorem sign_eq (a b : Word) : a.toInt * b.toInt =
    if (a.slt 0 ^^ b.slt 0) = true then -((a.toInt.natAbs * b.toInt.natAbs : Nat) : Int)
    else ((a.toInt.natAbs * b.toInt.natAbs : Nat) : Int) := by
  have hzero : (0 : Word).toInt = 0 := rfl
  rw [BitVec.slt_eq_decide, BitVec.slt_eq_decide, hzero, Nat.cast_mul]
  rcases lt_or_ge a.toInt 0 with ha | ha
  · have ha' : (a.toInt.natAbs : Int) = -a.toInt := by omega
    rcases lt_or_ge b.toInt 0 with hb | hb
    · have hb' : (b.toInt.natAbs : Int) = -b.toInt := by omega
      rw [ha', hb', if_neg (by simp [ha, hb])]
      ring
    · have hb' : (b.toInt.natAbs : Int) = b.toInt := by omega
      rw [ha', hb', if_pos (by simp [ha, not_lt.mpr hb])]
      ring
  · have ha' : (a.toInt.natAbs : Int) = a.toInt := by omega
    rcases lt_or_ge b.toInt 0 with hb | hb
    · have hb' : (b.toInt.natAbs : Int) = -b.toInt := by omega
      rw [ha', hb', if_pos (by simp [not_lt.mpr ha, hb])]
      ring
    · have hb' : (b.toInt.natAbs : Int) = b.toInt := by omega
      rw [ha', hb', if_neg (by simp [not_lt.mpr ha, not_lt.mpr hb])]

/-- The two's complement of two words, if they are not zero. -/
theorem negate_toNat (hi lo : Word) (h : hi.toNat * 2 ^ 32 + lo.toNat ≠ 0) :
    (if ~~~lo + 1 = 0 then ~~~hi + 1 else ~~~hi).toNat * 2 ^ 32 + (~~~lo + 1).toNat =
      2 ^ 64 - (hi.toNat * 2 ^ 32 + lo.toNat) := by
  have hhi := hi.isLt
  have hlo := lo.isLt
  have hone : (1 : Word).toNat = 1 := rfl
  have hnlo : (~~~lo + 1).toNat = (2 ^ 32 - 1 - lo.toNat + 1) % 2 ^ 32 := by
    rw [BitVec.toNat_add, BitVec.toNat_not, hone]
  by_cases hzero : ~~~lo + 1 = 0
  · have hlo0 : (~~~lo + 1).toNat = 0 := congrArg BitVec.toNat hzero
    rw [if_pos hzero, BitVec.toNat_add, BitVec.toNat_not, hone]
    omega
  · have hlo0 : (~~~lo + 1).toNat ≠ 0 := fun heq => hzero (BitVec.eq_of_toNat_eq heq)
    rw [if_neg hzero, BitVec.toNat_not]
    omega

theorem Mult_unsigned (a b : Word) :
    ((Mult a b false).1 ++ (Mult a b false).2).toNat = a.toNat * b.toNat := by
  rw [append_toNat]
  unfold Mult
  split
  · rename_i hzero
    rcases hzero with rfl | rfl
    · simp
    · simp
  · exact loop_start a b

theorem Mult_signed (a b : Word) :
    ((Mult a b true).1 ++ (Mult a b true).2).toInt = a.toInt * b.toInt := by
  by_cases hzero : a = 0 ∨ b = 0
  · rw [Mult, if_pos hzero]
    rcases hzero with rfl | rfl
    · simp
    · simp
  · have hloop := loop_start (if a.slt 0 then -a else a) (if b.slt 0 then -b else b)
    rw [toNat_magnitude, toNat_magnitude, MultState.product] at hloop
    rw [sign_eq, BitVec.toInt_eq_toNat_cond, append_toNat, Mult, if_neg hzero]
    simp only [Bool.true_and]
    generalize MultState.loop 32 ⟨if a.slt 0 then -a else a, 0, if b.slt 0 then -b else b, 0, 0⟩ = s
      at hloop ⊢
    have hle : a.toInt.natAbs * b.toInt.natAbs ≤ 2 ^ 31 * 2 ^ 31 :=
      Nat.mul_le_mul (natAbs_le a) (natAbs_le b)
    have hne : a.toInt.natAbs * b.toInt.natAbs ≠ 0 := by
      intro hmul
      rcases Nat.mul_eq_zero.mp hmul with ha | hb
      · exact hzero (.inl (BitVec.eq_of_toInt_eq (Int.natAbs_eq_zero.mp ha)))
      · exact hzero (.inr (BitVec.eq_of_toInt_eq (Int.natAbs_eq_zero.mp hb)))
    generalize a.toInt.natAbs * b.toInt.natAbs = product at *
    by_cases hsign : (a.slt 0 ^^ b.slt 0) = true
    · -- the two words are negated
      have hneg := negate_toNat s.hi s.lo (by omega)
      rw [if_pos hsign, if_pos hsign]
      dsimp only
      rw [hneg, hloop, if_neg (by omega)]
      omega
    · rw [if_neg hsign, if_neg hsign, hloop, if_pos (by omega)]

/-- **The two words are the exact product**, of the factors as they are signed or not. -/
theorem Mult_exact (a b : Word) :
    ((Mult a b false).1 ++ (Mult a b false).2).toNat = a.toNat * b.toNat ∧
      ((Mult a b true).1 ++ (Mult a b true).2).toInt = a.toInt * b.toInt :=
  ⟨Mult_unsigned a b, Mult_signed a b⟩

end Nachos.Machine

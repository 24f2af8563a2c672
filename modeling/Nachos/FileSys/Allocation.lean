import Mathlib.Data.Finset.Card
import Nachos.FileSys.Contents
import Nachos.FileSys.System

/-!
# The file system: allocating sectors

A header that is allocated points to sectors that were clear, all different, and these are marked
(`Allocate_eq`); to deallocate it is to clear them again (`Deallocate_eq`). Allocation fails only
when there are not enough.
-/

namespace Nachos.FileSys

open Lib Lib.Mem

namespace WordMap

variable {m : WordMap} {i : Nat}

/-! ### Counting the clear bits -/

/-- The bits that are clear. -/
def clearBits (m : WordMap) : Finset Nat := (Finset.range m.numBits).filter fun i => m.bit i = false

theorem mem_clearBits : i ∈ m.clearBits ↔ i < m.numBits ∧ m.bit i = false := by
  rw [clearBits, Finset.mem_filter, Finset.mem_range]

theorem NumClear_eq : m.NumClear = m.clearBits.card := by
  have hlist : m.clearBits.card = ((List.range m.numBits).filter fun i => m.bit i = false).length := rfl
  rw [NumClear, List.countP_eq_length_filter, hlist]
  congr 2
  refine List.filter_congr fun i _ => ?_
  cases m.bit i <;> rfl

/-- Marking a clear bit leaves one less. -/
theorem NumClear_mark (hi : i < m.numBits) (hclear : m.bit i = false) :
    (m.mark i).NumClear = m.NumClear - 1 := by
  have herase : (m.mark i).clearBits = m.clearBits.erase i := by
    ext j
    rw [mem_clearBits, numBits_mark, bit_mark, Finset.mem_erase, mem_clearBits]
    by_cases hj : j = i
    · simp [hj]
    · simp [hj]
  have hmem : i ∈ m.clearBits := mem_clearBits.mpr ⟨hi, hclear⟩
  have hpos := Finset.card_pos.mpr ⟨i, hmem⟩
  rw [NumClear_eq, NumClear_eq, herase, Finset.card_erase_of_mem hmem]
  omega

/-- Clearing a marked bit leaves one more. -/
theorem NumClear_clear (hi : i < m.numBits) (hmarked : m.bit i = true) :
    (m.clear i).NumClear = m.NumClear + 1 := by
  have hinsert : (m.clear i).clearBits = insert i m.clearBits := by
    ext j
    rw [mem_clearBits, numBits_clear, bit_clear, Finset.mem_insert, mem_clearBits]
    by_cases hj : j = i
    · simp [hj, hi]
    · simp [hj]
  have hnot : i ∉ m.clearBits := fun hmem => by
    rw [(mem_clearBits.mp hmem).2] at hmarked
    cases hmarked
  rw [NumClear_eq, NumClear_eq, hinsert, Finset.card_insert_of_notMem hnot]
  omega

theorem NumClear_congr {m' : WordMap} (hbits : m'.numBits = m.numBits)
    (h : ∀ i < m.numBits, m'.bit i = m.bit i) : m'.NumClear = m.NumClear := by
  have hset : m'.clearBits = m.clearBits := by
    ext i
    rw [mem_clearBits, mem_clearBits, hbits]
    exact and_congr_right fun hi => by rw [h i hi]
  rw [NumClear_eq, NumClear_eq, hset]

/-- **`Find` marks a clear bit**, where there is one. -/
theorem Find_eq (hclear : 0 < m.NumClear) :
    ∃ i < m.numBits, m.bit i = false ∧ m.Find = some ((i : Int), m.mark i) := by
  rw [NumClear_eq] at hclear
  obtain ⟨j, hj⟩ := Finset.card_pos.mp (Int.natCast_pos.mp hclear)
  obtain ⟨hlt, hbit⟩ := mem_clearBits.mp hj
  unfold Find
  cases hfind : (List.range m.numBits).find? fun i => !m.bit i with
  | none =>
    have hset := List.find?_eq_none.mp hfind j (List.mem_range.mpr hlt)
    simp [hbit] at hset
  | some i =>
    have hi := List.mem_range.mp (List.mem_of_find?_eq_some hfind)
    have hzero : (!m.bit i) = true := List.find?_some (p := fun i => !m.bit i) hfind
    refine ⟨i, hi, by simpa using hzero, ?_⟩
    show (m.Mark i).map _ = _
    rw [Mark, if_pos ⟨Int.natCast_nonneg i, by exact_mod_cast hi⟩]
    rfl

theorem Find_none (hnone : ¬ 0 < m.NumClear) : m.Find = some (-1, m) := by
  unfold Find
  cases hfind : (List.range m.numBits).find? fun i => !m.bit i with
  | none => rfl
  | some i =>
    refine absurd ?_ hnone
    have hi := List.mem_range.mp (List.mem_of_find?_eq_some hfind)
    have hzero : (!m.bit i) = true := List.find?_some (p := fun i => !m.bit i) hfind
    rw [NumClear_eq]
    exact Int.natCast_pos.mpr
      (Finset.card_pos.mpr ⟨i, mem_clearBits.mpr ⟨hi, by simpa using hzero⟩⟩)

/-- A new map is clear. -/
theorem new_eq (junk : Mem) (nitems : Nat) :
    ∃ m, new junk nitems = some m ∧ m.numBits = nitems ∧ ∀ i < nitems, m.bit i = false := by
  have hturn : ∀ k (m : WordMap), 0 ≤ k → k < 0 + nitems →
      (m.numBits = nitems ∧ ∀ i < k, m.bit i = false) →
      ∃ m', m.Clear k = some m' ∧ m'.numBits = nitems ∧ ∀ i < k + 1, m'.bit i = false := by
    rintro k m - hk ⟨hbits, hclear⟩
    refine ⟨m.clear k, if_pos ⟨Int.natCast_nonneg k, ?_⟩, hbits, fun i hi => ?_⟩
    · rw [bit_clear]
      split
      · rfl
      · exact hclear i (by omega)
    · rw [hbits]
      omega
  have hinit : (⟨nitems, junk⟩ : WordMap).numBits = nitems ∧
      ∀ i < 0, (⟨nitems, junk⟩ : WordMap).bit i = false :=
    ⟨rfl, fun i hi => absurd hi (Nat.not_lt_zero i)⟩
  obtain ⟨m, hm, hbits, hclear⟩ := loop_rule
    (fun k (m : WordMap) => m.numBits = nitems ∧ ∀ i < k, m.bit i = false) hinit hturn
  rw [Nat.zero_add] at hclear
  exact ⟨m, hm, hbits, hclear⟩

end WordMap

/-! ### Headers -/

namespace FileHeader

variable {hdr : FileHeader} {m : WordMap} {fileSize : Int}

/-- The sectors that a file of this size takes. -/
abbrev needed (fileSize : Int) : Int := divRoundUp fileSize SectorSize

theorem needed_eq (fileSize : Int) :
    (0 ≤ fileSize → needed fileSize = (fileSize + 127) / 128) ∧
      (fileSize < 0 → needed fileSize = -(-fileSize / 128)) := by
  have hsize : ((SectorSize : Nat) : Int) = 128 := rfl
  unfold needed divRoundUp
  rw [hsize]
  refine ⟨fun h => ?_, fun h => ?_⟩
  · rw [Int.tdiv_eq_ediv_of_nonneg h, Int.tmod_eq_emod_of_nonneg h]
    split <;> omega
  · have hdiv : fileSize.tdiv 128 = -(-fileSize / 128) := by
      rw [← Int.tdiv_eq_ediv_of_nonneg (by omega), Int.neg_tdiv, Int.neg_neg]
    have hmod := Int.tmod_add_tdiv_mul fileSize 128
    rw [hdiv] at hmod ⊢
    rw [if_neg (by omega)]
    omega

/-- The sizes that a header can have. -/
def Fits (fileSize : Int) : Prop := -2 ^ 31 ≤ fileSize ∧ fileSize ≤ MaxFileSize

theorem needed_few (h : Fits fileSize) :
    -2 ^ 31 ≤ needed fileSize ∧ needed fileSize ≤ NumDirect ∧
      fileSize ≤ needed fileSize * SectorSize := by
  obtain ⟨hlow, hhigh⟩ := h
  have hmax : ((MaxFileSize : Nat) : Int) = 3840 := rfl
  have hdirect : ((NumDirect : Nat) : Int) = 30 := rfl
  have hsize : ((SectorSize : Nat) : Int) = 128 := rfl
  rw [hmax] at hhigh
  rw [hdirect, hsize]
  rcases Int.lt_or_le fileSize 0 with hneg | hpos
  · rw [(needed_eq fileSize).2 hneg]
    omega
  · rw [(needed_eq fileSize).1 hpos]
    omega

/-- What the loop of `Allocate` has done at a turn, from the map `m` on. -/
structure Allocated (m : WordMap) (fileSize : Int) (i : Nat) (hdr : FileHeader) (m' : WordMap) :
    Prop where
  numBytes : hdr.numBytes = fileSize
  numSectors : hdr.numSectors = needed fileSize
  numBits : m'.numBits = m.numBits
  clear : ∀ k < i, 0 ≤ hdr.dataSectors k ∧ hdr.dataSectors k < m.numBits ∧
    m.bit (hdr.dataSectors k).toNat = false
  distinct : ∀ k < i, ∀ l < i, hdr.dataSectors k = hdr.dataSectors l → k = l
  marked : ∀ b, m'.bit b = true ↔ m.bit b = true ∨ ∃ k < i, (hdr.dataSectors k).toNat = b
  left : m'.NumClear = m.NumClear - i

theorem dataSectors_putInt {i k : Nat} {v : Int} (hk : k ≠ i) :
    dataSectors (putInt hdr (8 + 4 * i) v) k = hdr.dataSectors k :=
  intAt_putInt_of_ne (by omega)

/-- One more sector. -/
theorem Allocated.turn {m' : WordMap} {i : Nat} (h : Allocated m fileSize i hdr m')
    (hbits : m.numBits ≤ NumSectors) (hleft : (i : Int) < m.NumClear) :
    ∃ s, allocateTurn i (hdr, m') = some s ∧ Allocated m fileSize (i + 1) s.1 s.2 := by
  obtain ⟨sector, hlt, hclear, hfind⟩ := m'.Find_eq (by rw [h.left]; omega)
  have hnum : ((NumSectors : Nat) : Int) = 1024 := rfl
  have hsmall : (sector : Int) < 1024 := by
    rw [h.numBits] at hlt
    omega
  have hnew : dataSectors (putInt hdr (8 + 4 * i) sector) i = sector :=
    intAt_putInt_self (by omega)
  have hold : ∀ k < i, dataSectors (putInt hdr (8 + 4 * i) sector) k = hdr.dataSectors k :=
    fun k hk => dataSectors_putInt (by omega)
  -- the sector is none of those before
  have hunmarked := fun hmarked => Bool.false_ne_true (hclear.symm.trans ((h.marked sector).mpr hmarked))
  refine ⟨(putInt hdr (8 + 4 * i) sector, m'.mark sector), by rw [allocateTurn, hfind]; rfl,
    ?_, ?_, h.numBits, ?_, ?_, ?_, ?_⟩
  · exact (intAt_putInt_of_ne (by omega)).trans h.numBytes
  · exact (intAt_putInt_of_ne (by omega)).trans h.numSectors
  · intro k hk
    rcases Nat.lt_succ_iff_lt_or_eq.mp hk with hk | rfl
    · rw [hold k hk]
      exact h.clear k hk
    · rw [hnew]
      refine ⟨Int.natCast_nonneg _, by rw [← h.numBits]; exact_mod_cast hlt, ?_⟩
      rw [Int.toNat_natCast, ← Bool.not_eq_true]
      exact fun hmarked => hunmarked (.inl hmarked)
  · intro k hk l hl heq
    rcases Nat.lt_succ_iff_lt_or_eq.mp hk with hk | rfl
    · rcases Nat.lt_succ_iff_lt_or_eq.mp hl with hl | rfl
      · rw [hold k hk, hold l hl] at heq
        exact h.distinct k hk l hl heq
      · rw [hold k hk, hnew] at heq
        exact absurd (.inr ⟨k, hk, by rw [heq, Int.toNat_natCast]⟩) hunmarked
    · rcases Nat.lt_succ_iff_lt_or_eq.mp hl with hl | rfl
      · rw [hold l hl, hnew] at heq
        exact absurd (.inr ⟨l, hl, by rw [← heq, Int.toNat_natCast]⟩) hunmarked
      · rfl
  · intro b
    rw [WordMap.bit_mark]
    constructor
    · intro hb
      split at hb
      · rename_i hbs
        exact .inr ⟨i, by omega, by rw [hnew, hbs, Int.toNat_natCast]⟩
      · exact ((h.marked b).mp hb).imp id fun ⟨k, hk, hkb⟩ => ⟨k, by omega, by rw [hold k hk, hkb]⟩
    · rintro (hb | ⟨k, hk, hkb⟩)
      · split
        · rfl
        · exact (h.marked b).mpr (.inl hb)
      · split
        · rfl
        · rename_i hbs
          refine (h.marked b).mpr (.inr ⟨k, ?_, ?_⟩)
          · rcases Nat.lt_succ_iff_lt_or_eq.mp hk with hk | rfl
            · exact hk
            · rw [hnew, Int.toNat_natCast] at hkb
              exact absurd hkb.symm hbs
          · rcases Nat.lt_succ_iff_lt_or_eq.mp hk with hk | rfl
            · rw [← hold k hk, hkb]
            · rw [hnew, Int.toNat_natCast] at hkb
              exact absurd hkb.symm hbs
  · rw [WordMap.NumClear_mark hlt hclear, h.left]
    omega

/-- **Allocating** takes as many clear sectors as the size needs. -/
theorem Allocate_eq (hdr : FileHeader) (hfits : Fits fileSize) (hbits : m.numBits ≤ NumSectors)
    (henough : needed fileSize ≤ m.NumClear) :
    ∃ hdr' m', Allocate hdr m fileSize = some (true, hdr', m') ∧ hdr'.Valid ∧
      Allocated m fileSize (needed fileSize).toNat hdr' m' := by
  obtain ⟨hlow, hfew, hsize⟩ := needed_few hfits
  have hdirect : ((NumDirect : Nat) : Int) = 30 := rfl
  have hmax : ((MaxFileSize : Nat) : Int) = 3840 := rfl
  have hnum : ((NumSectors : Nat) : Int) = 1024 := rfl
  obtain ⟨s₀, hs₀⟩ : ∃ s₀ : FileHeader × WordMap,
      s₀ = (putInt (putInt hdr 0 fileSize) 4 (needed fileSize), m) := ⟨_, rfl⟩
  have hinit : Allocated m fileSize 0 s₀.1 s₀.2 := by
    rw [hs₀]
    refine ⟨?_, intAt_putInt_self (by omega), rfl, by simp, by simp, by simp, by simp⟩
    refine (intAt_putInt_of_ne (by omega)).trans (intAt_putInt_self ?_)
    have := hfits.1
    have := hfits.2
    omega
  have hturn : ∀ i (s : FileHeader × WordMap), 0 ≤ i → i < 0 + (needed fileSize).toNat →
      Allocated m fileSize i s.1 s.2 →
      ∃ s', allocateTurn i s = some s' ∧ Allocated m fileSize (i + 1) s'.1 s'.2 :=
    fun i s _ hi h => h.turn hbits (by omega)
  obtain ⟨s, hs, hall⟩ := loop_rule
    (fun i (s : FileHeader × WordMap) => Allocated m fileSize i s.1 s.2) hinit hturn
  rw [Nat.zero_add] at hall
  refine ⟨s.1, s.2, ?_, ?_, hall⟩
  · unfold Allocate
    dsimp only
    rw [if_neg (show ¬ m.NumClear < needed fileSize by omega), ← hs₀, hs]
    rfl
  · refine ⟨?_, ?_, fun i hi => ?_, fun i j hi hj => ?_⟩
    · rw [hall.numBytes, hall.numSectors]
      exact hsize
    · rw [hall.numSectors]
      exact hfew
    · rw [hall.numSectors] at hi
      have hclear := hall.clear i (by omega)
      omega
    · rw [hall.numSectors] at hi hj
      exact hall.distinct i (by omega) j (by omega)

/-- It fails where there are not enough. -/
theorem Allocate_fails (hdr : FileHeader) (hfew : m.NumClear < needed fileSize) :
    ∃ s, Allocate hdr m fileSize = some (false, s) :=
  ⟨_, if_pos hfew⟩

/-! ### Deallocating -/

/-- What the loop of `Deallocate` has done at a turn. -/
structure Deallocated (hdr : FileHeader) (m : WordMap) (i : Nat) (m' : WordMap) : Prop where
  numBits : m'.numBits = m.numBits
  bit : ∀ b, m'.bit b = true ↔ m.bit b = true ∧ ∀ k < i, (hdr.dataSectors k).toNat ≠ b
  left : m'.NumClear = m.NumClear + i

/-- **Deallocating clears the sectors** of a header, if they are marked. -/
theorem Deallocate_eq (h : hdr.Valid) (hbits : m.numBits = NumSectors)
    (hmarked : ∀ b, hdr.Has b → m.bit b = true) :
    ∃ m', hdr.Deallocate m = some m' ∧ m'.numBits = m.numBits ∧
      (∀ b, m'.bit b = true ↔ m.bit b = true ∧ ¬ hdr.Has b) ∧
      m'.NumClear = m.NumClear + hdr.numSectors.toNat := by
  have hinit : Deallocated hdr m 0 m := ⟨rfl, by simp, by simp⟩
  have hturn : ∀ i m', 0 ≤ i → i < 0 + hdr.numSectors.toNat → Deallocated hdr m i m' →
      ∃ m'', hdr.deallocateTurn i m' = some m'' ∧ Deallocated hdr m (i + 1) m'' := by
    intro i m' _ hi hd
    have hlt : (i : Int) < hdr.numSectors := by omega
    have hsector := h.onDisk i hlt
    have hrange : m'.InRange (hdr.dataSectors i) := by
      refine ⟨hsector.1, ?_⟩
      rw [hd.numBits, hbits]
      exact hsector.2
    have hbit : m'.bit (hdr.dataSectors i).toNat = true := by
      refine (hd.bit _).mpr ⟨hmarked _ ⟨i, hlt, rfl⟩, fun k hk heq => ?_⟩
      have hk' := h.distinct k i (by omega) hlt (by
        have := (h.onDisk k (by omega)).1
        omega)
      omega
    refine ⟨m'.clear (hdr.dataSectors i).toNat, ?_, hd.numBits, fun b => ?_, ?_⟩
    · rw [deallocateTurn, WordMap.Test, if_pos hrange, hbit, WordMap.Clear, if_pos hrange]
      rfl
    · rw [WordMap.bit_clear]
      constructor
      · intro hb
        split at hb
        · cases hb
        · rename_i hne
          obtain ⟨hbit, hnot⟩ := (hd.bit b).mp hb
          refine ⟨hbit, fun k hk => ?_⟩
          rcases Nat.lt_succ_iff_lt_or_eq.mp hk with hk | rfl
          · exact hnot k hk
          · exact fun heq => hne heq.symm
      · rintro ⟨hbit, hnot⟩
        rw [if_neg (fun heq => hnot i (Nat.lt_succ_self i) heq.symm)]
        exact (hd.bit b).mpr ⟨hbit, fun k hk => hnot k (by omega)⟩
    · rw [WordMap.NumClear_clear (by have := hrange.2; omega) hbit, hd.left]
      omega
  obtain ⟨m', hm', hd⟩ := loop_rule (fun i m' => Deallocated hdr m i m') hinit hturn
  rw [Nat.zero_add] at hd
  refine ⟨m', hm', hd.numBits, fun b => (hd.bit b).trans (and_congr_right fun _ => ?_), hd.left⟩
  exact ⟨fun hnot ⟨k, hk, heq⟩ => hnot k (by omega) heq,
    fun hnot k hk heq => hnot ⟨k, by omega, heq⟩⟩

end FileHeader

end Nachos.FileSys

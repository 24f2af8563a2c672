import Nachos.BitMap
import Nachos.FileSys.Basic

/-!
# The file system: the bitmap as words

`userprog/bitmap.cc` as the file system uses it: the bits are in an array of words, which is
read from a file and written to one. It refines the map of the allocators (`WordMap.toBitMap`).
-/

namespace Nachos.FileSys

open Lib Lib.Mem

def BitsInWord : Nat := 32

/-- `class BitMap`: `map` is the memory of its words. -/
structure WordMap where
  numBits : Nat
  map : Mem

namespace WordMap

/-- `numWords`. -/
def numWords (m : WordMap) : Int := divRoundUp m.numBits BitsInWord

/-- `map[i]`. -/
def word (m : WordMap) (i : Nat) : BitVec 32 := wordAt m.map (4 * i)

def setWord (m : WordMap) (i : Nat) (w : BitVec 32) : WordMap :=
  { m with map := putWord m.map (4 * i) w }

/-- What `Test` computes. -/
def bit (m : WordMap) (which : Nat) : Bool :=
  m.word (which / BitsInWord) &&& (1#32 <<< (which % BitsInWord)) ≠ 0#32

/-- What `Mark` does. -/
def mark (m : WordMap) (which : Nat) : WordMap :=
  m.setWord (which / BitsInWord) (m.word (which / BitsInWord) ||| (1#32 <<< (which % BitsInWord)))

/-- What `Clear` does. -/
def clear (m : WordMap) (which : Nat) : WordMap :=
  m.setWord (which / BitsInWord)
    (m.word (which / BitsInWord) &&& ~~~(1#32 <<< (which % BitsInWord)))

/-- The assertion of the three. -/
def InRange (m : WordMap) (which : Int) : Prop := 0 ≤ which ∧ which < m.numBits

instance (m : WordMap) (which : Int) : Decidable (m.InRange which) :=
  inferInstanceAs (Decidable (_ ∧ _))

def Test (m : WordMap) (which : Int) : Option Bool :=
  if m.InRange which then some (m.bit which.toNat) else none

def Mark (m : WordMap) (which : Int) : Option WordMap :=
  if m.InRange which then some (m.mark which.toNat) else none

def Clear (m : WordMap) (which : Int) : Option WordMap :=
  if m.InRange which then some (m.clear which.toNat) else none

/-- `BitMap::BitMap`. -/
def new (junk : Mem) (nitems : Nat) : Option WordMap :=
  loop (fun i m => m.Clear i) 0 nitems ⟨nitems, junk⟩

/-- `BitMap::Find`. -/
def Find (m : WordMap) : Option (Int × WordMap) :=
  match (List.range m.numBits).find? fun i => !m.bit i with
  | some i => (m.Mark i).map fun m => ((i : Int), m)
  | none => some (-1, m)

/-- `BitMap::NumClear`. -/
def NumClear (m : WordMap) : Int := (List.range m.numBits).countP fun i => !m.bit i

/-- `BitMap::FetchFrom`. -/
def FetchFrom (disk junk : Mem) (m : WordMap) (file : OpenFile) : Option WordMap :=
  (file.ReadAt disk junk m.map 0 (m.numWords * 4) 0).map fun (_, map) => { m with map := map }

/-- `BitMap::WriteBack`. -/
def WriteBack (disk junk : Mem) (m : WordMap) (file : OpenFile) : Option Mem :=
  (file.WriteAt disk junk m.map (m.numWords * 4) 0).map Prod.snd

/-! ### The bits -/

/-- The map of the allocators. -/
def toBitMap (m : WordMap) : BitMap := ⟨m.numBits, m.bit⟩

variable (m : WordMap) (i j : Nat)

@[simp] theorem numBits_mark : (m.mark i).numBits = m.numBits := rfl

@[simp] theorem numBits_clear : (m.clear i).numBits = m.numBits := rfl

theorem bit_eq : m.bit i = (m.word (i / BitsInWord)).getLsbD (i % BitsInWord) := by
  have hlt : i % BitsInWord < 32 := Nat.mod_lt _ (by decide)
  unfold bit
  rw [← BitVec.twoPow_eq, BitVec.and_twoPow]
  by_cases hbit : (m.word (i / BitsInWord)).getLsbD (i % BitsInWord) = true
  · rw [if_pos hbit, hbit]
    refine decide_eq_true fun hzero => ?_
    have hone := congrArg (fun w => w.getLsbD (i % BitsInWord)) hzero
    simp [hlt] at hone
  · rw [if_neg hbit, Bool.eq_false_iff.mpr hbit]
    simp

theorem word_setWord (w : BitVec 32) : (m.setWord i w).word j = if j = i then w else m.word j := by
  unfold word setWord
  by_cases hij : j = i
  · rw [if_pos hij, hij]
    exact wordAt_putWord_self
  · rw [if_neg hij]
    exact wordAt_putWord_of_ne (by omega)

/-- The one bit of a mask, in its word. -/
theorem getLsbD_mask {i j : Nat} (h : j / BitsInWord = i / BitsInWord) :
    (1#32 <<< (i % BitsInWord)).getLsbD (j % BitsInWord) = decide (j = i) := by
  have hlt : i % BitsInWord < 32 := Nat.mod_lt _ (by decide)
  have hiff : i % BitsInWord = j % BitsInWord ↔ j = i := by
    unfold BitsInWord at *
    omega
  rw [← BitVec.twoPow_eq, BitVec.getLsbD_twoPow]
  simp [hlt, hiff]

theorem bit_mark : (m.mark i).bit j = if j = i then true else m.bit j := by
  rw [bit_eq, bit_eq, mark, word_setWord]
  by_cases hword : j / BitsInWord = i / BitsInWord
  · rw [if_pos hword, BitVec.getLsbD_or, getLsbD_mask hword, hword]
    by_cases hij : j = i
    · simp [hij]
    · simp [hij]
  · have hij : j ≠ i := fun h => hword (by rw [h])
    rw [if_neg hword, if_neg hij]

theorem bit_clear : (m.clear i).bit j = if j = i then false else m.bit j := by
  rw [bit_eq, bit_eq, clear, word_setWord]
  by_cases hword : j / BitsInWord = i / BitsInWord
  · have hlt : j % BitsInWord < 32 := Nat.mod_lt _ (by decide)
    rw [if_pos hword, BitVec.getLsbD_and, BitVec.getLsbD_not, getLsbD_mask hword, hword]
    by_cases hij : j = i
    · simp [hij]
    · simp [hij, hlt]
  · have hij : j ≠ i := fun h => hword (by rw [h])
    rw [if_neg hword, if_neg hij]

/-- **The words behave as the bits do.** -/
theorem toBitMap_mark : (m.mark i).toBitMap = m.toBitMap.mark i := by
  unfold toBitMap BitMap.mark
  congr 1
  funext j
  rw [bit_mark, Function.update_apply]

theorem toBitMap_clear : (m.clear i).toBitMap = m.toBitMap.clear i := by
  unfold toBitMap BitMap.clear
  congr 1
  funext j
  rw [bit_clear, Function.update_apply]

theorem toBitMap_find :
    m.Find = some (match m.toBitMap.find.1 with
      | some i => ((i : Int), m.mark i)
      | none => (-1, m)) := by
  unfold Find BitMap.find
  show _ = some (match (match (List.range m.numBits).find? fun i => !m.bit i with
    | some i => (some i, m.toBitMap.mark i)
    | none => (none, m.toBitMap)).1 with
    | some i => ((i : Int), m.mark i)
    | none => (-1, m))
  split
  · rename_i k hk
    have hlt := List.mem_range.mp (List.mem_of_find?_eq_some hk)
    rw [Mark, if_pos ⟨Int.natCast_nonneg k, by exact_mod_cast hlt⟩]
    rfl
  · rfl

end WordMap

end Nachos.FileSys

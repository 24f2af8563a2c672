import Mathlib.Data.List.Basic
import Mathlib.Logic.Function.Basic

/-!
# `BitMap` (`userprog/bitmap.cc`)

The allocation bitmap behind the frame table, the swap file and the three resource tables
of the network server. The array of words is a function from bit numbers; the class's
range assertions are met by every caller of the model, whose bit numbers come from `find`.
-/

namespace Nachos

/-- `class BitMap`: `numBits` bits, each on or off. -/
structure BitMap where
  numBits : Nat
  bit : Nat → Bool

namespace BitMap

/-- `BitMap::BitMap`: every bit is clear. -/
def new (nitems : Nat) : BitMap := ⟨nitems, fun _ => false⟩

/-- `BitMap::Mark`. -/
def mark (m : BitMap) (which : Nat) : BitMap :=
  { m with bit := Function.update m.bit which true }

/-- `BitMap::Clear`. -/
def clear (m : BitMap) (which : Nat) : BitMap :=
  { m with bit := Function.update m.bit which false }

/-- `BitMap::Test`. -/
def test (m : BitMap) (which : Nat) : Bool := m.bit which

/-- `BitMap::Find`: the first clear bit, which is marked; `none` stands for `-1`. -/
def find (m : BitMap) : Option Nat × BitMap :=
  match (List.range m.numBits).find? (fun i => !m.test i) with
  | some i => (some i, m.mark i)
  | none => (none, m)

@[simp] theorem numBits_mark (m : BitMap) (i : Nat) : (m.mark i).numBits = m.numBits := rfl

@[simp] theorem numBits_clear (m : BitMap) (i : Nat) : (m.clear i).numBits = m.numBits := rfl

@[simp] theorem test_new (n i : Nat) : (new n).test i = false := rfl

theorem test_mark (m : BitMap) (i j : Nat) :
    (m.mark i).test j = if j = i then true else m.test j := by
  simp [test, mark, Function.update_apply]

theorem test_clear (m : BitMap) (i j : Nat) :
    (m.clear i).test j = if j = i then false else m.test j := by
  simp [test, clear, Function.update_apply]

/-- What `find` returns when it finds a bit: the lowest clear one, now marked. -/
theorem find_some {m m' : BitMap} {i : Nat} (h : m.find = (some i, m')) :
    i < m.numBits ∧ m.test i = false ∧ (∀ j < i, m.test j = true) ∧ m' = m.mark i := by
  unfold find at h
  split at h
  · rename_i k hk
    cases h
    obtain ⟨hclear, n, hn, heq, hbefore⟩ := List.find?_eq_some_iff_getElem.mp hk
    simp only [List.length_range, List.getElem_range] at hn heq hbefore
    subst heq
    refine ⟨hn, by simpa using hclear, ?_, rfl⟩
    intro j hj
    simpa using hbefore j hj
  · cases h

/-- `find` fails only when every bit is set, and then changes nothing. -/
theorem find_none {m m' : BitMap} (h : m.find = (none, m')) :
    (∀ j < m.numBits, m.test j = true) ∧ m' = m := by
  unfold find at h
  split at h
  · cases h
  · rename_i hnone
    cases h
    refine ⟨fun j hj => ?_, rfl⟩
    simpa using List.find?_eq_none.mp hnone j (List.mem_range.mpr hj)

end BitMap

end Nachos

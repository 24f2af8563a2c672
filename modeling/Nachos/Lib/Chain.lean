import Mathlib.Data.List.Nodup
import Mathlib.Logic.Function.Basic
import Mathlib.Tactic.Common

/-!
# Chains of cells

Cells in a heap, each with a value and the address of the next cell. A segment (`Seg`) is a list of
cells that lead from one address to another.
-/

namespace Lib

/-- What is at an address: a value, and where to go on. -/
structure Cell (β : Type*) where
  val : β
  next : Option Nat

abbrev Heap (β : Type*) := Nat → Option (Cell β)

variable {β : Type*} {h : Heap β} {p q : Option Nat} {a : Nat} {v : β} {xs ys : List (Nat × β)}

/-- From `p` on the cells are those of the list, and the last one leads to `q`. -/
def Seg (h : Heap β) : Option Nat → List (Nat × β) → Option Nat → Prop
  | p, [], q => p = q
  | p, (a, v) :: cells, q => p = some a ∧ ∃ n, h a = some ⟨v, n⟩ ∧ Seg h n cells q

namespace Seg

theorem append : Seg h p (xs ++ ys) q ↔ ∃ m, Seg h p xs m ∧ Seg h m ys q := by
  induction xs generalizing p with
  | nil => exact ⟨fun hs => ⟨p, rfl, hs⟩, fun ⟨m, hpm, hs⟩ => hpm ▸ hs⟩
  | cons x xs ih =>
    constructor
    · rintro ⟨hp, n, hn, hs⟩
      obtain ⟨m, hm, hys⟩ := ih.mp hs
      exact ⟨m, ⟨hp, n, hn, hm⟩, hys⟩
    · rintro ⟨m, ⟨hp, n, hn, hm⟩, hys⟩
      exact ⟨hp, n, hn, ih.mpr ⟨m, hm, hys⟩⟩

/-- A cell elsewhere may change. -/
theorem update (ha : a ∉ xs.map Prod.fst) (c : Option (Cell β)) :
    Seg (Function.update h a c) p xs q ↔ Seg h p xs q := by
  induction xs generalizing p with
  | nil => exact Iff.rfl
  | cons x xs ih =>
    rw [List.map_cons, List.mem_cons, not_or] at ha
    have hother : Function.update h a c x.1 = h x.1 := Function.update_of_ne (Ne.symm ha.1) _ _
    constructor
    · rintro ⟨hp, n, hn, hs⟩
      rw [hother] at hn
      exact ⟨hp, n, hn, (ih ha.2).mp hs⟩
    · rintro ⟨hp, n, hn, hs⟩
      exact ⟨hp, n, by rw [hother]; exact hn, (ih ha.2).mpr hs⟩

theorem singleton : Seg h p [(a, v)] q ↔ p = some a ∧ h a = some ⟨v, q⟩ := by
  constructor
  · rintro ⟨hp, n, hn, rfl⟩
    exact ⟨hp, hn⟩
  · rintro ⟨hp, hn⟩
    exact ⟨hp, q, hn, rfl⟩

/-- The cells of a segment are in the heap. -/
theorem mem (hs : Seg h p xs q) {x : Nat × β} (hx : x ∈ xs) : ∃ n, h x.1 = some ⟨x.2, n⟩ := by
  induction xs generalizing p with
  | nil => cases hx
  | cons y xs ih =>
    obtain ⟨-, n, hn, hrest⟩ := hs
    rcases List.mem_cons.mp hx with rfl | hx
    · exact ⟨n, hn⟩
    · exact ih hrest hx

/-- **The last cell leads elsewhere.** -/
theorem relink (hs : Seg h p (xs ++ [(a, v)]) q) (ha : a ∉ xs.map Prod.fst) (q' : Option Nat) :
    Seg (Function.update h a (some ⟨v, q'⟩)) p (xs ++ [(a, v)]) q' := by
  obtain ⟨m, hxs, hlast⟩ := append.mp hs
  refine append.mpr ⟨m, (update ha _).mpr hxs, singleton.mpr ⟨(singleton.mp hlast).1, ?_⟩⟩
  exact Function.update_self ..

end Seg

end Lib

import Mathlib.Algebra.BigOperators.Ring.Finset
import Mathlib.Algebra.Order.BigOperators.Group.Finset
import Mathlib.Data.List.Basic

/-!
# Counting over lists

How sums and counts over a list change when one place of it changes.
-/

namespace Lib

universe u

variable {α : Type u}

/-- Two functions that differ at one element of a list without repetitions. -/
theorem sum_map_of_ne {l : List α} (hl : l.Nodup) {a : α} (ha : a ∈ l) {F G : α → Nat}
    (h : ∀ b, b ≠ a → G b = F b) : (l.map G).sum + F a = (l.map F).sum + G a := by
  induction l with
  | nil => cases ha
  | cons b l ih =>
    obtain ⟨hb, hl⟩ := List.nodup_cons.mp hl
    simp only [List.map_cons, List.sum_cons]
    by_cases heq : b = a
    · subst heq
      have hrest : l.map G = l.map F :=
        List.map_congr_left fun c hc => h c fun hcb => hb (hcb ▸ hc)
      rw [hrest]
      omega
    · have := ih hl ((List.mem_cons.mp ha).resolve_left fun hab => heq hab.symm)
      rw [h b heq]
      omega

/-- Replacing one element of a list changes a sum over it by the difference. -/
theorem sum_map_set {l : List α} {i : Nat} {a b : α} (h : l[i]? = some a) (F : α → Nat) :
    ((l.set i b).map F).sum + F a = (l.map F).sum + F b := by
  induction l generalizing i with
  | nil => cases h
  | cons c l ih =>
    cases i with
    | zero =>
      cases h
      simp only [List.set_cons_zero, List.map_cons, List.sum_cons]
      omega
    | succ i =>
      have := ih (i := i) h
      simp only [List.set_cons_succ, List.map_cons, List.sum_cons]
      omega

/-- Taking out one element. -/
theorem countP_eraseIdx {P : α → Bool} {l : List α} {i : Nat} {a : α} (h : l[i]? = some a) :
    (l.eraseIdx i).countP P + (if P a then 1 else 0) = l.countP P := by
  induction l generalizing i with
  | nil => cases h
  | cons b l ih =>
    cases i with
    | zero =>
      cases h
      rw [List.eraseIdx_cons_zero, List.countP_cons]
    | succ i =>
      have := ih (i := i) h
      rw [List.eraseIdx_cons_succ, List.countP_cons, List.countP_cons]
      omega

/-- Putting in an element that counts the same. -/
theorem countP_set {P : α → Bool} {l : List α} {i : Nat} {a b : α} (h : l[i]? = some a)
    (hab : P b = P a) : (l.set i b).countP P = l.countP P := by
  induction l generalizing i with
  | nil => cases h
  | cons c l ih =>
    cases i with
    | zero =>
      cases h
      rw [List.set_cons_zero, List.countP_cons, List.countP_cons, hab]
    | succ i => rw [List.set_cons_succ, List.countP_cons, List.countP_cons, ih (i := i) h]

end Lib

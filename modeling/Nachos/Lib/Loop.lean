import Mathlib.Tactic.Common

/-!
# Counted loops

A loop over the numbers from `first` on, whose body may fail, and the rule that its proofs go
by: an invariant of the counter and the state.
-/

namespace Lib

variable {σ : Type*} {body : Nat → σ → Option σ} {first n : Nat} {s : σ}

/-- `for (i = first; i < first + n; i++)`. -/
def loop (body : Nat → σ → Option σ) : Nat → Nat → σ → Option σ
  | _, 0, s => some s
  | first, n + 1, s => (body first s).bind (loop body (first + 1) n)

/-- **The loop rule.** Where the body keeps the invariant at each turn, the loop ends with it. -/
theorem loop_rule (I : Nat → σ → Prop) (hinit : I first s)
    (hbody : ∀ i s, first ≤ i → i < first + n → I i s →
      ∃ s', body i s = some s' ∧ I (i + 1) s') :
    ∃ s', loop body first n s = some s' ∧ I (first + n) s' := by
  induction n generalizing first s with
  | zero => exact ⟨s, rfl, hinit⟩
  | succ n ih =>
    obtain ⟨s₁, hs₁, hI⟩ := hbody first s (Nat.le_refl _) (by omega) hinit
    obtain ⟨s', hs', hI'⟩ := ih hI fun i s hi hlt => hbody i s (by omega) (by omega)
    refine ⟨s', ?_, ?_⟩
    · rw [loop, hs₁]
      exact hs'
    · rw [show first + (n + 1) = first + 1 + n by omega]
      exact hI'

end Lib

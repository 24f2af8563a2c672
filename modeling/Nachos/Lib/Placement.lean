import Mathlib.Data.List.Nodup
import Mathlib.Logic.Function.Basic

/-!
# Things in queues

A family of queues `q : ι → List τ`, one for each place, in which every thing that is alive
stands at exactly one place, exactly once. `status` is kept by each thing itself and says at
what kind of place it is.

A thing is put at the end of a queue (`push`) and taken from the front of one (`pop`); a move
is a `pop` followed by a `push`, and keeps all of it (`Placed.move`).
-/

namespace Lib

variable {ι τ σ : Type} [DecidableEq ι]

/-- Put `t` at the end of the queue at `p`. -/
def push (q : ι → List τ) (p : ι) (t : τ) : ι → List τ := Function.update q p (q p ++ [t])

/-- Take the first one from the queue at `p`. -/
def pop (q : ι → List τ) (p : ι) : ι → List τ := Function.update q p (q p).tail

/-- The things in `A` are at one place, exactly once, with the status of that place; nothing
else is anywhere. -/
structure Placed (label : ι → σ) (q : ι → List τ) (A : τ → Prop) (status : τ → σ) : Prop where
  nodup : ∀ p, (q p).Nodup
  unique : ∀ t p p', t ∈ q p → t ∈ q p' → p = p'
  mem : ∀ t, A t ↔ ∃ p, t ∈ q p
  status : ∀ t p, t ∈ q p → status t = label p

namespace Placed

variable {label : ι → σ} {q : ι → List τ} {A : τ → Prop} {status : τ → σ}

omit [DecidableEq ι] in
/-- Nothing is anywhere. -/
theorem empty (label : ι → σ) (status : τ → σ) :
    Placed label (fun _ => []) (fun _ => False) status where
  nodup _ := List.nodup_nil
  unique _ _ _ h := by cases h
  mem _ := by simp
  status _ _ h := by cases h

/-- **Exactly one place, exactly once.** -/
theorem count [DecidableEq τ] (h : Placed label q A status) {t : τ} (ht : A t) :
    ∃ p, ∀ p', (q p').count t = if p' = p then 1 else 0 := by
  obtain ⟨p, hp⟩ := (h.mem t).mp ht
  refine ⟨p, fun p' => ?_⟩
  by_cases hpp : p' = p
  · rw [if_pos hpp, hpp]
    exact List.count_eq_one_of_mem (h.nodup p) hp
  · rw [if_neg hpp]
    exact List.count_eq_zero_of_not_mem fun hp' => hpp (h.unique t p' p hp' hp)

theorem pop (h : Placed label q A status) {p : ι} {t : τ} {rest : List τ} (hq : q p = t :: rest) :
    Placed label (pop q p) (fun u => A u ∧ u ≠ t) status := by
  have hself : Lib.pop q p p = rest := by
    rw [Lib.pop, Function.update_self, hq, List.tail_cons]
  have hother : ∀ p', p' ≠ p → Lib.pop q p p' = q p' := fun p' hp => Function.update_of_ne hp _ _
  have ht : t ∈ q p := by
    rw [hq]
    exact List.mem_cons_self
  have hnodup : t ∉ rest ∧ rest.Nodup := List.nodup_cons.mp (hq ▸ h.nodup p)
  -- what is left at a place was there before, and is not `t`
  have hmem : ∀ u p', u ∈ Lib.pop q p p' ↔ u ∈ q p' ∧ u ≠ t := by
    intro u p'
    by_cases hp : p' = p
    · subst hp
      rw [hself, hq, List.mem_cons]
      constructor
      · rintro hu
        exact ⟨.inr hu, fun hut => hnodup.1 (hut ▸ hu)⟩
      · rintro ⟨rfl | hu, hne⟩
        · exact absurd rfl hne
        · exact hu
    · rw [hother p' hp]
      exact ⟨fun hu => ⟨hu, fun hut => hp (h.unique t p' p (hut ▸ hu) ht)⟩, And.left⟩
  refine ⟨fun p' => ?_, fun u p₁ p₂ h₁ h₂ => ?_, fun u => ?_, fun u p' hu => ?_⟩
  · by_cases hp : p' = p
    · rw [hp, hself]
      exact hnodup.2
    · rw [hother p' hp]
      exact h.nodup p'
  · exact h.unique u p₁ p₂ ((hmem u p₁).mp h₁).1 ((hmem u p₂).mp h₂).1
  · simp only [hmem, exists_and_right, h.mem u]
  · exact h.status u p' ((hmem u p').mp hu).1

theorem push [DecidableEq τ] (h : Placed label q A status) {t : τ} (ht : ¬ A t) (p : ι) :
    Placed label (push q p t) (fun u => A u ∨ u = t) (Function.update status t (label p)) := by
  have hnone : ∀ p', t ∉ q p' := fun p' hp' => ht ((h.mem t).mpr ⟨p', hp'⟩)
  have hmem : ∀ u p', u ∈ Lib.push q p t p' ↔ u ∈ q p' ∨ p' = p ∧ u = t := by
    intro u p'
    by_cases hp : p' = p
    · subst hp
      simp [Lib.push]
    · simp [Lib.push, hp]
  refine ⟨fun p' => ?_, fun u p₁ p₂ h₁ h₂ => ?_, fun u => ?_, fun u p' hu => ?_⟩
  · by_cases hp : p' = p
    · subst hp
      rw [Lib.push, Function.update_self]
      exact (h.nodup p').append (List.nodup_singleton t) (by simpa using hnone p')
    · rw [Lib.push, Function.update_of_ne hp]
      exact h.nodup p'
  · rcases (hmem u p₁).mp h₁ with hold₁ | ⟨rfl, rfl⟩
    · rcases (hmem u p₂).mp h₂ with hold₂ | ⟨rfl, rfl⟩
      · exact h.unique u p₁ p₂ hold₁ hold₂
      · exact absurd hold₁ (hnone p₁)
    · rcases (hmem u p₂).mp h₂ with hold₂ | ⟨rfl, -⟩
      · exact absurd hold₂ (hnone p₂)
      · rfl
  · simp only [hmem, exists_or, exists_eq_left, h.mem u]
  · rcases (hmem u p').mp hu with hold | ⟨rfl, rfl⟩
    · have hne : u ≠ t := fun hut => hnone p' (hut ▸ hold)
      rw [Function.update_of_ne hne, h.status u p' hold]
    · exact Function.update_self _ _ _

omit [DecidableEq ι] in
/-- The status of a thing that is nowhere does not matter. -/
theorem setStatus [DecidableEq τ] (h : Placed label q A status) {t : τ} (ht : ¬ A t) (a : σ) :
    Placed label q A (Function.update status t a) where
  nodup := h.nodup
  unique := h.unique
  mem := h.mem
  status u p hu := by
    have hne : u ≠ t := fun hut => ht ((h.mem t).mpr ⟨p, hut ▸ hu⟩)
    rw [Function.update_of_ne hne, h.status u p hu]

/-- **A move keeps everything in its place.** -/
theorem move [DecidableEq τ] (h : Placed label q A status) {p : ι} {t : τ} {rest : List τ} (hq : q p = t :: rest)
    (p' : ι) :
    Placed label (Lib.push (Lib.pop q p) p' t) A (Function.update status t (label p')) := by
  have hall := (h.pop hq).push (fun hand => hand.2 rfl) p'
  have ht : A t := (h.mem t).mpr ⟨p, by rw [hq]; exact List.mem_cons_self⟩
  have hA : (fun u => (A u ∧ u ≠ t) ∨ u = t) = A := by
    funext u
    by_cases hu : u = t
    · subst hu
      simpa using ht
    · simp [hu]
  rw [hA] at hall
  exact hall

end Placed

end Lib

import Mathlib.Logic.Relation

/-!
# Labelled paths and invariants

A transition relation `step : σ → α → σ → Prop` with labels in `α`, the finite paths it
has, and the one induction every safety result of the development goes through: a
predicate that each step preserves holds at the end of every path that starts in it.

A condition on the steps of a run is put on the relation itself (`Restrict`): a run whose
steps all meet `C` is a path of the restricted relation.
-/

namespace Lib

universe u v

variable {σ : Type u} {α : Type v} {step : σ → α → σ → Prop}

/-- A finite path: the states are joined by steps with the labels of the list, in order. -/
inductive Path (step : σ → α → σ → Prop) : σ → List α → σ → Prop where
  | nil (s : σ) : Path step s [] s
  | cons {s t u : σ} {a : α} {l : List α} (hstep : step s a t) (hrest : Path step t l u) :
      Path step s (a :: l) u

/-- **The invariant rule.** What every step preserves, every path preserves. -/
theorem Path.invariant {I : σ → Prop} (hI : ∀ s a t, I s → step s a t → I t)
    {s t : σ} {l : List α} (h : Path step s l t) (hs : I s) : I t := by
  induction h with
  | nil _ => exact hs
  | cons hstep _ ih => exact ih (hI _ _ _ hs hstep)

/-- Paths compose. -/
theorem Path.append {s t u : σ} {l₁ l₂ : List α} (h₁ : Path step s l₁ t)
    (h₂ : Path step t l₂ u) : Path step s (l₁ ++ l₂) u := by
  induction h₁ with
  | nil _ => exact h₂
  | cons hstep _ ih => exact .cons hstep (ih h₂)

/-- A path is extended by one step at its end. -/
theorem Path.snoc {s t u : σ} {l : List α} {a : α} (h : Path step s l t) (hstep : step t a u) :
    Path step s (l ++ [a]) u :=
  h.append (.cons hstep (.nil u))

/-- A relation with fewer steps has fewer paths. -/
theorem Path.mono {step' : σ → α → σ → Prop} (hsub : ∀ s a t, step s a t → step' s a t)
    {s t : σ} {l : List α} (h : Path step s l t) : Path step' s l t := by
  induction h with
  | nil s => exact .nil s
  | cons hstep _ ih => exact .cons (hsub _ _ _ hstep) ih

/-- **Forward simulation.** Where each step is one of another relation with the same label, between
states that are related as before, a path is one of that relation. -/
theorem Path.refine {τ : Type u} {step' : τ → α → τ → Prop} {R : σ → τ → Prop}
    (hsim : ∀ s a s' t, R s t → step s a s' → ∃ t', step' t a t' ∧ R s' t') {s s' : σ} {t : τ}
    {l : List α} (h : Path step s l s') (hR : R s t) : ∃ t', Path step' t l t' ∧ R s' t' := by
  induction h generalizing t with
  | nil s => exact ⟨t, .nil t, hR⟩
  | cons hstep _ ih =>
    obtain ⟨t₁, ht₁, hR₁⟩ := hsim _ _ _ _ hR hstep
    obtain ⟨t', ht', hR'⟩ := ih hR₁
    exact ⟨t', .cons ht₁ ht', hR'⟩

/-- The steps of `step` that meet a condition on the state before them and their label. -/
def Restrict (step : σ → α → σ → Prop) (C : σ → α → Prop) : σ → α → σ → Prop :=
  fun s a t => step s a t ∧ C s a

/-- **A property that each step has to earn.** If a step leads to a state with the property
exactly from one that has it, under the condition `C`, then a path leads to a state with the
property exactly when all its steps meet `C`. -/
theorem Path.restrict_iff {I P : σ → Prop} {C : σ → α → Prop}
    (hI : ∀ s a t, I s → step s a t → I t)
    (hstep : ∀ s a t, I s → step s a t → (P t ↔ P s ∧ C s a))
    {s t : σ} {l : List α} (h : Path step s l t) (hs : I s) (hP : P s) :
    P t ↔ Path (Restrict step C) s l t := by
  have hback : ∀ {s t : σ} {l : List α}, Path step s l t → I s → P t → P s := by
    intro s t l h
    induction h with
    | nil s => exact fun _ hP => hP
    | cons hst _ ih => exact fun hs hP => ((hstep _ _ _ hs hst).mp (ih (hI _ _ _ hs hst) hP)).1
  constructor
  · intro ht
    induction h with
    | nil s => exact .nil s
    | cons hst hrest ih =>
      have hm := hI _ _ _ hs hst
      obtain ⟨-, hC⟩ := (hstep _ _ _ hs hst).mp (hback hrest hm ht)
      exact .cons ⟨hst, hC⟩ (ih hm ((hstep _ _ _ hs hst).mpr ⟨hP, hC⟩) ht)
  · intro hpath
    -- the restricted steps keep the invariant and the property together
    refine (hpath.invariant (I := fun s => I s ∧ P s) ?_ ⟨hs, hP⟩).2
    rintro s a t ⟨hs, hP⟩ ⟨hst, hC⟩
    exact ⟨hI _ _ _ hs hst, (hstep _ _ _ hs hst).mpr ⟨hP, hC⟩⟩

/-- Some path of `step` leads from `init` to the state. -/
def Reachable (step : σ → α → σ → Prop) (init s : σ) : Prop :=
  ∃ l, Path step init l s

/-- The invariant rule, for reachable states. -/
theorem Reachable.invariant {I : σ → Prop} {init s : σ} (h : Reachable step init s)
    (hinit : I init) (hI : ∀ s a t, I s → step s a t → I t) : I s := by
  obtain ⟨l, hl⟩ := h
  exact hl.invariant hI hinit

/-- One more step from a reachable state. -/
theorem Reachable.tail {init s t : σ} {a : α} (h : Reachable step init s) (hstep : step s a t) :
    Reachable step init t := by
  obtain ⟨l, hl⟩ := h
  exact ⟨l ++ [a], hl.snoc hstep⟩

/-! ## Running a partial step function

Where the steps are computed, a path is the run of a list of labels. -/

/-- Run the labels in order, stopping where the step function has no result. -/
def execute (next : σ → α → Option σ) : σ → List α → Option σ
  | s, [] => some s
  | s, a :: l => (next s a).bind fun t => execute next t l

/-- A run of the step function is a path of the relation it computes. -/
theorem path_of_execute {next : σ → α → Option σ}
    (hnext : ∀ s a t, next s a = some t → step s a t) {l : List α} {s t : σ}
    (h : execute next s l = some t) : Path step s l t := by
  induction l generalizing s with
  | nil =>
    cases h
    exact .nil _
  | cons a l ih =>
    rw [execute] at h
    obtain ⟨m, hm, hrest⟩ := Option.bind_eq_some_iff.mp h
    exact .cons (hnext _ _ _ hm) (ih hrest)

/-- The step function that stops at a step that does not meet the condition. -/
def guarded (next : σ → α → Option σ) (C : σ → α → Prop) [∀ s a, Decidable (C s a)] (s : σ)
    (a : α) : Option σ :=
  if C s a then next s a else none

theorem restrict_of_guarded {next : σ → α → Option σ} {C : σ → α → Prop}
    [∀ s a, Decidable (C s a)] (hnext : ∀ s a t, next s a = some t → step s a t) {s t : σ} {a : α}
    (h : guarded next C s a = some t) : Restrict step C s a t := by
  unfold guarded at h
  split at h
  · rename_i hC
    exact ⟨hnext s a t h, hC⟩
  · cases h

/-- A run of the guarded step function is a path of the restricted relation. -/
theorem reachable_of_guarded {next : σ → α → Option σ} {C : σ → α → Prop}
    [∀ s a, Decidable (C s a)] (hnext : ∀ s a t, next s a = some t → step s a t) {l : List α}
    {s t : σ} (h : execute (guarded next C) s l = some t) :
    Reachable (Restrict step C) s t :=
  ⟨l, path_of_execute (fun _ _ _ => restrict_of_guarded hnext) h⟩

end Lib

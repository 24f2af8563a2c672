import Mathlib.Data.List.Basic

/-!
# Sequential histories

An object is given by what it answers to a call, after the calls made before it
(`respond`). When calls are made one after another, each is directly followed by its answer:
such a history is determined by the calls alone (`history`).

`lastWrite` is what a register holds: the value of the last call that wrote it.
-/

namespace Lib

variable {κ ρ α ι β : Type}

/-- A call is made, or its caller is answered. -/
inductive Event (κ ρ α : Type) where
  | ran (c : κ) (r : ρ)
  | told (c : κ) (a : α)
  deriving DecidableEq, Repr

/-- In the list, `x` comes before `y`. -/
def Before (l : List β) (x y : β) : Prop :=
  ∃ l₁ l₂, l = l₁ ++ l₂ ∧ x ∈ l₁ ∧ y ∈ l₂

/-- The history of the calls, made in order after those in `before`. -/
def history (respond : List (κ × ρ) → ρ → α) (before : List (κ × ρ)) :
    List (κ × ρ) → List (Event κ ρ α)
  | [] => []
  | (c, r) :: rest =>
    .ran c r :: .told c (respond before r) :: history respond (before ++ [(c, r)]) rest

section History

variable {respond : List (κ × ρ) → ρ → α} {before : List (κ × ρ)}

theorem history_append (l₁ l₂ : List (κ × ρ)) :
    history respond before (l₁ ++ l₂) =
      history respond before l₁ ++ history respond (before ++ l₁) l₂ := by
  induction l₁ generalizing before with
  | nil => rw [List.nil_append, List.append_nil]; rfl
  | cons e l₁ ih =>
    obtain ⟨c, r⟩ := e
    show _ :: _ :: history respond (before ++ [(c, r)]) (l₁ ++ l₂) = _
    rw [ih, List.append_assoc]
    rfl

/-- One more call at the end. -/
theorem history_concat (l : List (κ × ρ)) (c : κ) (r : ρ) :
    history respond before (l ++ [(c, r)]) =
      history respond before l ++ [.ran c r, .told c (respond (before ++ l) r)] :=
  history_append l [(c, r)]

/-- Every call that is made is answered. -/
theorem told_mem_history {l : List (κ × ρ)} {c : κ} {r : ρ} (h : (c, r) ∈ l) :
    ∃ a, .told c a ∈ history respond before l := by
  obtain ⟨l₁, l₂, rfl⟩ := List.append_of_mem h
  refine ⟨respond (before ++ l₁) r, ?_⟩
  rw [history_append]
  exact List.mem_append_right _ (List.mem_cons_of_mem _ List.mem_cons_self)

end History

section Registers

variable [DecidableEq ι] {writes : ρ → Option (ι × β)} {initial : β} {i : ι}

/-- The value that the last of the calls wrote to the register `i`, or the initial value. -/
def lastWrite (writes : ρ → Option (ι × β)) (initial : β) (i : ι) (l : List (κ × ρ)) : β :=
  l.foldl (fun v e => (writes e.2).elim v fun w => if w.1 = i then w.2 else v) initial

theorem lastWrite_concat (l : List (κ × ρ)) (c : κ) (r : ρ) :
    lastWrite writes initial i (l ++ [(c, r)]) =
      (writes r).elim (lastWrite writes initial i l) fun w =>
        if w.1 = i then w.2 else lastWrite writes initial i l := by
  simp [lastWrite]

end Registers

end Lib

import Nachos.Net.Basic

/-!
# Tables and their bitmaps

A bit of the map of a table is set exactly when the entry is live (`Table.Ok`). So a new
entry never overwrites a live one, and the `ASSERT(FALSE)` of the create functions is never
reached.
-/

namespace Nachos.Net

namespace Table

variable {α : Type} {t : Table α}

theorem get?_some (t : Table α) (i : Nat) : t.get? (some i) = (t.entries[i]?).join := rfl

@[simp] theorem get?_none (t : Table α) : t.get? none = none := rfl

theorem lt_of_get? {i : Nat} {a : α} (h : t.get? (some i) = some a) : i < t.entries.length :=
  (List.getElem?_eq_some_iff.mp (Option.join_eq_some_iff.mp h)).1

theorem mem_of_get? {index : Option Nat} {a : α} (h : t.get? index = some a) :
    some a ∈ t.entries := by
  obtain ⟨i, -, hi⟩ := Option.bind_eq_some_iff.mp h
  exact List.mem_of_getElem? (Option.join_eq_some_iff.mp hi)

theorem get?_of_mem {a : α} (h : some a ∈ t.entries) : ∃ i, t.get? (some i) = some a := by
  obtain ⟨i, hi⟩ := List.mem_iff_getElem?.mp h
  exact ⟨i, by rw [get?_some, hi]; rfl⟩

/-! ## Writing an entry back -/

theorem get?_put_self {index : Option Nat} {a b : α} (h : t.get? index = some b) :
    (t.put index a).get? index = some a := by
  obtain ⟨i, rfl, hi⟩ := Option.bind_eq_some_iff.mp h
  obtain ⟨hlt, -⟩ := List.getElem?_eq_some_iff.mp (Option.join_eq_some_iff.mp hi)
  simp [get?, put, List.getElem?_set_self hlt]

theorem get?_put_of_ne {index slot : Option Nat} (hne : index ≠ slot) (a : α) :
    (t.put index a).get? slot = t.get? slot := by
  cases slot with
  | none => rfl
  | some i =>
    cases index with
    | none => rfl
    | some j =>
      have hij : j ≠ i := fun h => hne (h ▸ rfl)
      simp [get?, put, List.getElem?_set_ne hij]

/-- What is at a slot after an entry was written back. -/
theorem get?_put_cases {index slot : Option Nat} {a b : α}
    (h : (t.put index a).get? slot = some b) :
    index = slot ∧ b = a ∨ index ≠ slot ∧ t.get? slot = some b := by
  by_cases hi : index = slot
  · subst hi
    cases index with
    | none => cases h
    | some i =>
      have hlt : i < t.entries.length := by
        have := lt_of_get? h
        simpa [put] using this
      simp only [get?, put, Option.bind_some, List.getElem?_set_self hlt, Option.join_some,
        Option.some.injEq] at h
      exact .inl ⟨rfl, h.symm⟩
  · rw [get?_put_of_ne hi] at h
    exact .inr ⟨hi, h⟩

/-- Writing another entry back changes the table. -/
theorem put_ne {index : Option Nat} {a b : α} (h : t.get? index = some b) (hne : a ≠ b) :
    t.put index a ≠ t := by
  intro heq
  have hput := get?_put_self (a := a) h
  rw [heq, h] at hput
  exact hne (Option.some.inj hput).symm

theorem mem_put {index : Option Nat} {a b : α} (h : some b ∈ (t.put index a).entries) :
    b = a ∨ some b ∈ t.entries := by
  obtain ⟨i, hi⟩ := get?_of_mem h
  rcases get?_put_cases hi with ⟨-, rfl⟩ | ⟨-, hold⟩
  · exact .inl rfl
  · exact .inr (mem_of_get? hold)

/-! ## Destroying an entry -/

theorem get?_remove_self (index : Option Nat) : (t.remove index).get? index = none := by
  cases index with
  | none => rfl
  | some i =>
    simp only [get?, remove, Option.bind_some, List.getElem?_set, if_true]
    split <;> rfl

theorem get?_remove_of_ne {index slot : Option Nat} (hne : index ≠ slot) :
    (t.remove index).get? slot = t.get? slot := by
  cases slot with
  | none => rfl
  | some i =>
    cases index with
    | none => rfl
    | some j =>
      have hij : j ≠ i := fun h => hne (h ▸ rfl)
      simp [get?, remove, List.getElem?_set_ne hij]

theorem get?_remove_cases {index slot : Option Nat} {b : α}
    (h : (t.remove index).get? slot = some b) :
    index ≠ slot ∧ t.get? slot = some b := by
  have hne : index ≠ slot := by
    rintro rfl
    rw [get?_remove_self] at h
    cases h
  rw [get?_remove_of_ne hne] at h
  exact ⟨hne, h⟩

theorem remove_ne {index : Option Nat} {b : α} (h : t.get? index = some b) :
    t.remove index ≠ t := by
  intro heq
  have hremove := get?_remove_self (t := t) index
  rw [heq, h] at hremove
  cases hremove

theorem mem_remove {index : Option Nat} {b : α} (h : some b ∈ (t.remove index).entries) :
    some b ∈ t.entries := by
  obtain ⟨i, hi⟩ := get?_of_mem h
  exact mem_of_get? (get?_remove_cases hi).2

/-! ## The bitmap -/

/-- The bits of the map are those of the live entries. -/
structure Ok (t : Table α) : Prop where
  bits : ∀ i, t.bitMap.test i = (t.get? (some i)).isSome
  length : t.entries.length ≤ t.bitMap.numBits

theorem ok_empty (size : Nat) : (empty size : Table α).Ok :=
  ⟨fun i => by simp [empty, get?], by simp [empty]⟩

theorem Ok.put {index : Option Nat} {a b : α} (h : t.Ok) (hb : t.get? index = some b) :
    (t.put index a).Ok := by
  refine ⟨fun i => ?_, ?_⟩
  · have hmap : (t.put index a).bitMap = t.bitMap := by cases index <;> rfl
    rw [hmap, h.bits]
    by_cases hi : index = some i
    · subst hi
      rw [get?_put_self hb, hb]
      rfl
    · rw [get?_put_of_ne hi]
  · cases index <;> simpa [Table.put] using h.length

theorem Ok.remove (h : t.Ok) (index : Option Nat) : (t.remove index).Ok := by
  refine ⟨fun i => ?_, ?_⟩
  · cases index with
    | none => exact h.bits i
    | some j =>
      by_cases hi : i = j
      · subst hi
        rw [get?_remove_self]
        simp [Table.remove, BitMap.test_clear]
      · rw [get?_remove_of_ne (fun heq => hi (Option.some.inj heq).symm)]
        simp [Table.remove, BitMap.test_clear, hi, h.bits]
  · cases index <;> simpa [Table.remove] using h.length

/-- Where a new entry goes: a slot that was not live. -/
inductive InsertSpec (t : Table α) (a : α) : Table α × Option Nat × Bool → Prop where
  | full (hfull : ∀ i < t.bitMap.numBits, (t.get? (some i)).isSome = true) :
      InsertSpec t a (t, none, false)
  | new {t' : Table α} {i : Nat} (hfree : t.get? (some i) = none)
      (hself : t'.get? (some i) = some a)
      (hother : ∀ j, j ≠ i → t'.get? (some j) = t.get? (some j)) (hok : t'.Ok) :
      InsertSpec t a (t', some i, false)

theorem Ok.insert (h : t.Ok) (a : α) : InsertSpec t a (t.insert a) := by
  unfold Table.insert
  split
  · rename_i m hfind
    obtain ⟨hfull, -⟩ := BitMap.find_none hfind
    exact .full fun i hi => by rw [← h.bits]; exact hfull i hi
  · rename_i i m hfind
    obtain ⟨hlt, hclear, hbefore, rfl⟩ := BitMap.find_some hfind
    have hfree : t.get? (some i) = none := by
      rw [← Option.not_isSome_iff_eq_none, ← h.bits, hclear]
      exact Bool.false_ne_true
    -- every slot below `i` is live, so `i` is at most the number of slots
    have hle : i ≤ t.entries.length := by
      by_contra hgt
      have hlive := hbefore t.entries.length (by omega)
      rw [h.bits, get?_some, List.getElem?_eq_none (Nat.le_refl _)] at hlive
      cases hlive
    have hnew : ∀ entries : List (Option α), entries[i]? = some (some a) →
        (∀ j, j ≠ i → (entries[j]?).join = (t.entries[j]?).join) →
        entries.length ≤ t.bitMap.numBits →
        InsertSpec t a (⟨entries, t.bitMap.mark i⟩, some i, false) := by
      intro entries hi hother hlength
      refine .new hfree (by rw [get?_some, hi]; rfl) hother ⟨fun j => ?_, hlength⟩
      rw [BitMap.test_mark]
      by_cases hj : j = i
      · subst hj
        rw [if_pos rfl, get?_some, hi]
        rfl
      · rw [if_neg hj, h.bits, get?_some, get?_some, hother j hj]
    split
    · rename_i heq
      subst heq
      refine hnew _ (by simp) (fun j hj => ?_) (by simpa using Nat.succ_le_of_lt hlt)
      by_cases hjlt : j < t.entries.length
      · rw [List.getElem?_append_left hjlt]
      · rw [List.getElem?_eq_none (by simp; omega), List.getElem?_eq_none (by omega)]
    · rename_i hne
      have hilt : i < t.entries.length := by omega
      rw [if_pos hilt]
      refine hnew _ (List.getElem?_set_self hilt) (fun j hj => ?_) (by simpa using h.length)
      rw [List.getElem?_set_ne (Ne.symm hj)]

theorem Ok.insert_ok (h : t.Ok) (a : α) : (t.insert a).1.Ok := by
  generalize hinsert : t.insert a = res
  cases hinsert ▸ h.insert a with
  | full => exact h
  | new _ _ _ hok => exact hok

/-- What is at a slot after a new entry was put into the table. -/
theorem Ok.get?_insert_cases (h : t.Ok) {a b : α} {slot : Option Nat}
    (hget : (t.insert a).1.get? slot = some b) : b = a ∨ t.get? slot = some b := by
  generalize hinsert : t.insert a = res at hget
  cases hinsert ▸ h.insert a with
  | full => exact .inr hget
  | @new t' i _ hself hother _ =>
    cases slot with
    | none => cases hget
    | some j =>
      by_cases hj : j = i
      · subst hj
        exact .inl (Option.some.inj (hget.symm.trans hself))
      · exact .inr ((hother j hj).symm.trans hget)

theorem mem_insert {a b : α} (h : some b ∈ (t.insert a).1.entries) :
    b = a ∨ some b ∈ t.entries := by
  unfold insert at h
  split at h
  · exact .inr h
  · split at h
    · rcases List.mem_append.mp h with h | h
      · exact .inr h
      · exact .inl (Option.some.inj (List.mem_singleton.mp h))
    · split at h
      · rcases List.mem_or_eq_of_mem_set h with h | h
        · exact .inr h
        · exact .inl (Option.some.inj h)
      · exact .inr h

end Table

/-- The tables of a server agree with their bitmaps. -/
structure Server.TablesOk (s : Server) : Prop where
  locks : s.serverLocks.Ok
  CVs : s.serverCVs.Ok
  MVs : s.serverMVs.Ok

end Nachos.Net

import Nachos.Net.Handed
import Nachos.Net.Integrity

/-!
# Names and creates

Which names a server has, and what the code of the creates does to them. In a run in which
clients send creates only, that is all the servers ever handle (`OnlyCreates`), and no entry
ever goes.
-/

namespace Nachos.Net

/-! ## Names in a table -/

namespace Table

variable {α : Type} {t : Table α} {nameOf : α → String} {name : String}

theorem findNamed_isSome :
    (t.findNamed nameOf name).isSome = true ↔ ∃ a, some a ∈ t.entries ∧ nameOf a = name := by
  constructor
  · intro h
    obtain ⟨i, hi⟩ := Option.isSome_iff_exists.mp h
    obtain ⟨a, ha, hname⟩ := findNamed_some hi
    exact ⟨a, mem_of_get? ha, hname⟩
  · rintro ⟨a, ha, hname⟩
    obtain ⟨i, hi⟩ := get?_of_mem ha
    rw [← Option.ne_none_iff_isSome]
    exact fun hnone => findNamed_none hnone hi hname

/-- A new entry brings its own name only. -/
theorem findNamed_insert {a : α} (h : ((t.insert a).1.findNamed nameOf name).isSome = true) :
    (t.findNamed nameOf name).isSome = true ∨ nameOf a = name := by
  obtain ⟨b, hb, hname⟩ := findNamed_isSome.mp h
  rcases mem_insert hb with rfl | hold
  · exact .inr hname
  · exact .inl (findNamed_isSome.mpr ⟨b, hold, hname⟩)

/-- An entry that is written back keeps its name. -/
theorem findNamed_put {index : Option Nat} {a b : α} (hb : t.get? index = some b)
    (hname : nameOf a = nameOf b) (h : ((t.put index a).findNamed nameOf name).isSome = true) :
    (t.findNamed nameOf name).isSome = true := by
  obtain ⟨c, hc, hcname⟩ := findNamed_isSome.mp h
  rcases mem_put hc with rfl | hold
  · exact findNamed_isSome.mpr ⟨b, mem_of_get? hb, hname.symm.trans hcname⟩
  · exact findNamed_isSome.mpr ⟨c, hold, hcname⟩

end Table

/-! ## Names of a server -/

/-- A create for the empty name. -/
def Request.nameless : Request → Bool
  | .createLock name | .createCondition name | .createMV name _ => decide (name = "")
  | _ => false

theorem sameCreate_symm {r r' : Request} (h : r.sameCreate r' = true) :
    r'.sameCreate r = true := by
  cases r <;> cases r' <;> first | exact decide_eq_true (of_decide_eq_true h).symm | cases h

theorem sameCreate_trans {r₁ r₂ r₃ : Request} (h₁ : r₁.sameCreate r₂ = true)
    (h₂ : r₂.sameCreate r₃ = true) : r₁.sameCreate r₃ = true := by
  cases r₁ <;> cases r₂ <;> try cases h₁
  -- two creates of one kind are left
  all_goals
    cases r₃ <;>
      first
      | exact decide_eq_true ((of_decide_eq_true h₂).trans (of_decide_eq_true h₁))
      | cases h₂

theorem sameCreate_refl {r : Request} (h : r.id = none) : r.sameCreate r = true := by
  cases r <;> first | exact decide_eq_true rfl | cases h

theorem nameless_congr {r r' : Request} (h : r.sameCreate r' = true) :
    r'.nameless = r.nameless := by
  cases r <;> cases r' <;> first | cases h | (cases of_decide_eq_true h; rfl)

theorem hasNamed_congr {r r' : Request} (h : r.sameCreate r' = true) (s : Server) :
    hasNamed s r' = hasNamed s r := by
  cases r <;> cases r' <;> first | cases h | (cases of_decide_eq_true h; rfl)

theorem hasNamed_of_tables {s s' : Server} (h : SameTables s s') (r : Request) :
    hasNamed s' r = hasNamed s r := by
  cases r <;> simp only [hasNamed, findLockNamed, findCVNamed, findMVNamed, h.locks, h.CVs, h.MVs]

/-- **A create brings its own name only.** -/
theorem hasNamed_serverDoCreate {s : Server} {r r' : Request} {c : Sender}
    (h : hasNamed (serverDoCreate r c s).1 r' = true) :
    hasNamed s r' = true ∨ r.sameCreate r' = true := by
  cases r with
  | createLock name =>
    change hasNamed (createLockNamed name s).1 r' = true at h
    unfold createLockNamed at h
    split at h
    · cases r' with
      | createLock name' =>
        exact (Table.findNamed_insert h).imp_right fun hname => decide_eq_true hname.symm
      | _ => exact .inl h
    · split at h
      · rename_i l hl
        cases r' with
        | createLock name' => exact .inl (Table.findNamed_put hl (by rfl) h)
        | _ => exact .inl h
      · exact .inl h
  | createCondition name =>
    change hasNamed (createCVNamed name s).1 r' = true at h
    unfold createCVNamed at h
    split at h
    · cases r' with
      | createCondition name' =>
        exact (Table.findNamed_insert h).imp_right fun hname => decide_eq_true hname.symm
      | _ => exact .inl h
    · split at h
      · rename_i cv hcv
        cases r' with
        | createCondition name' => exact .inl (Table.findNamed_put hcv (by rfl) h)
        | _ => exact .inl h
      · exact .inl h
  | createMV name size =>
    change hasNamed (createMV name size s).1 r' = true at h
    unfold createMV at h
    split at h
    · cases r' with
      | createMV name' size' =>
        exact (Table.findNamed_insert h).imp_right fun hname => decide_eq_true hname.symm
      | _ => exact .inl h
    · split at h
      · rename_i m hm
        split at h
        · exact .inl h
        · cases r' with
          | createMV name' size' => exact .inl (Table.findNamed_put hm (by rfl) h)
          | _ => exact .inl h
      · exact .inl h
  | _ => exact .inl h

theorem hasNamed_createAll {s : Server} {r r' : Request} {l : List PendingRequest}
    (hl : ∀ p ∈ l, r.sameCreate p.r = true) (h : hasNamed (createAll l s).1 r' = true) :
    hasNamed s r' = true ∨ r.sameCreate r' = true := by
  induction l generalizing s with
  | nil => exact .inl h
  | cons p rest ih =>
    rcases ih (fun q hq => hl q (List.mem_cons_of_mem p hq)) h with hfirst | hsame
    · exact (hasNamed_serverDoCreate hfirst).imp_right
        (sameCreate_trans (hl p List.mem_cons_self))
    · exact .inr hsame

theorem serverDoCreate_others (r : Request) (c : Sender) (s : Server) :
    (serverDoCreate r c s).1.others = s.others := by
  rw [serverDoCreate_eq]
  exact (Quiet.createBody (A := fun _ => True) r c s).others

theorem createAll_others (l : List PendingRequest) (s : Server) :
    (createAll l s).1.others = s.others := by
  induction l generalizing s with
  | nil => rfl
  | cons p rest ih =>
    rw [createAll, Act.andThen_apply, ih]
    exact serverDoCreate_others p.r p.c s

theorem createAll_pending (l : List PendingRequest) (s : Server) :
    (createAll l s).1.pendingRequests = s.pendingRequests := by
  induction l generalizing s with
  | nil => rfl
  | cons p rest ih =>
    rw [createAll, Act.andThen_apply, ih]
    exact serverDoCreate_pending p.r p.c s

/-! ## Runs of creates -/

/-- The clients send creates only. -/
def Creates (_ : Network) : Op → Prop
  | .send _ _ _ r => r.id = none
  | .deliver _ | .take _ => True

instance (n : Network) : (op : Op) → Decidable (Creates n op)
  | .send _ _ _ _ => inferInstanceAs (Decidable (_ = _))
  | .deliver _ | .take _ => .isTrue trivial

/-- What is executed with creates only is a run of creates. -/
theorem restrict_creates (n : Network) (op : Op) (n' : Network)
    (h : Lib.guarded Network.next Creates n op = some n') :
    Lib.Restrict NetStep Creates n op n' :=
  Lib.restrict_of_guarded (fun _ _ _ hnext => hnext) h

/-- Nothing but creates is handled. -/
def OnlyCreates (n : Network) : Prop := Handed (fun _ r => r.id = none) (fun _ => False) n

theorem onlyCreates_init (up : Nat → Bool) : OnlyCreates (.init up) := handed_init _ _ up

theorem onlyCreates_step {n n' : Network} {op : Op} (hn : Numbered n) (h : OnlyCreates n)
    (hcreates : Creates n op) (hstep : NetStep n op n') : OnlyCreates n' := by
  refine Handed.step (fun _ _ _ hfalse => hfalse.elim) (fun _ _ _ hid => by cases hid) hn h ?_ hstep
  rintro machine mailbox dst r rfl
  rw [read_id]
  exact hcreates

/-- **The entry found for a reply to a create** is for the request in the reply, which has a
name. -/
theorem reread_found {n : Network} {src dst rid index : Nat} {c : Sender} {r r' : Request}
    {response response' : Bool} {p : PendingRequest} (hasked : Asked n dst src rid c r)
    (hid : r.id = none) (hread : r.reread response = (r', response'))
    (hfind : findPending (n.server dst) c rid r' = some index)
    (hp : (n.server dst).pendingRequests[index]? = some p) :
    p.c = c ∧ p.r = r ∧ p.requestID = rid ∧ r.nameless = false ∧ r' = r ∧ response' = response := by
  obtain ⟨q, hq, hrid, -, hkey⟩ := findPending_some hfind
  cases hp.symm.trans hq
  obtain ⟨hc, hr⟩ := hasked.agree p (List.mem_of_getElem? hp) hrid
  rw [hr] at hkey
  have hname : ∀ name : String, (readReply name response).1 = name → name ≠ "" := by
    rintro name hread rfl
    cases response <;> exact absurd hread (by decide)
  have hkeep : ∀ name : String, name ≠ "" → readReply name response = (name, response) :=
    fun name hne => if_neg hne
  cases r with
  | createLock name =>
    cases hread
    have hne := hname name (of_decide_eq_true hkey).symm
    exact ⟨hc, hr, hrid, decide_eq_false hne, by rw [hkeep name hne], by rw [hkeep name hne]⟩
  | createCondition name =>
    cases hread
    have hne := hname name (of_decide_eq_true hkey).symm
    exact ⟨hc, hr, hrid, decide_eq_false hne, by rw [hkeep name hne], by rw [hkeep name hne]⟩
  | createMV name size =>
    cases hread
    have hne := hname name (of_decide_eq_true hkey).symm
    exact ⟨hc, hr, hrid, decide_eq_false hne, by rw [hkeep name hne], by rw [hkeep name hne]⟩
  | _ => cases hid

/-- A reply about a name is read as it was sent. -/
theorem reread_named {r : Request} (h : r.nameless = false) (response : Bool) :
    r.reread response = (r, response) := by
  cases r with
  | createLock name | createCondition name | createMV name =>
    have hkeep : readReply name response = (name, response) := if_neg (of_decide_eq_false h)
    rw [Request.reread, hkeep]
  | _ => rfl

end Nachos.Net

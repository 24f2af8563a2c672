import Nachos.Passport.Meeting

/-!
# The passport office: passports are issued in order

The completions are read and set in calls of their own, so between what a passport clerk has read
and what it files anything may happen. But a completion is never taken back: what the clerk has
read is still so when it certifies the passport (`Clerk.HasRead`).
-/

namespace Nachos.Passport

open Lib Lib.Monitor

set_option linter.unusedSectionVars false

/-- The application and the picture were recorded. -/
def Filed (val : MV → Int → Int) (SSN : Int) : Prop :=
  MV.applicationCompletion.get val SSN = 1 ∧ MV.pictureCompletion.get val SSN = 1

/-- What a passport clerk has read of its customer, where it is. -/
def Clerk.HasRead (val : MV → Int → Int) (c : Clerk) : Prop :=
  match c.pc with
  | .serve .getPictureCompletion => MV.applicationCompletion.get val c.customerSSN = 1
  | .serve (.setPunishment v) => v ≠ 1 → Filed val c.customerSSN
  | .serve .setPassportCompletion => Filed val c.customerSSN
  | _ => True

/-- **Nothing is certified that was not filed.** -/
structure InOrder {T : Type} (s : State T) : Prop where
  certified : ∀ n, Certified s.val n → Filed s.val n
  read : ∀ t c, s.loc t = .clerk c → c.HasRead s.val

section Reading

variable {n : Nat} {val val' : MV → Int → Int} {c : Clerk}

theorem Clerk.HasRead.mono (h : c.HasRead val)
    (happlication : MV.applicationCompletion.get val c.customerSSN = 1 →
      MV.applicationCompletion.get val' c.customerSSN = 1)
    (hpicture : MV.pictureCompletion.get val c.customerSSN = 1 →
      MV.pictureCompletion.get val' c.customerSSN = 1) : c.HasRead val' := by
  have hfiled : Filed val c.customerSSN → Filed val' c.customerSSN :=
    fun hf => ⟨happlication hf.1, hpicture hf.2⟩
  obtain ⟨k, myLine, money, fromLine, SSN, pc⟩ := c
  cases pc with
  | serve p => cases p with
    | getPictureCompletion => exact happlication h
    | setPunishment v => exact fun hv => hfiled (h hv)
    | setPassportCompletion => exact hfiled h
    | _ => trivial
  | _ => trivial

/-- A clerk goes on with what it has read. -/
theorem Clerk.hasRead_next (h : c.HasRead val) (r : Nat) :
    (c.next n (answered n c.request val).1 r).HasRead val := by
  obtain ⟨k, myLine, money, fromLine, SSN, pc⟩ := c
  cases pc with
  | draw p => cases p <;> trivial
  | senator p => cases p with
    | release waiting => cases waiting <;> trivial
    | _ => trivial
  | call p => cases p with
    | onBreak p => cases p with
      | releaseEnd => trivial
      | _ =>
        simp only [next, nextCall]
        split <;> trivial
    | getBribeLineCount | getLineCount =>
      simp only [next, nextCall]
      split <;> trivial
    | _ => trivial
  | serve p => cases p with
    | getSSN => cases k <;> trivial
    | getPicture | setRejection v | signal | release | getPassportCompletion =>
      simp only [next, nextServe]
      split
      · rename_i q hq
        split at hq <;> cases hq <;> trivial
      · trivial
    | setPunishment v =>
      simp only [next, nextServe]
      by_cases hv : v = 1
      · rw [if_pos hv]
        trivial
      · rw [if_neg hv]
        exact h hv
    | getApplicationCompletion =>
      simp only [next, nextServe]
      by_cases ha : (answered n (Clerk.request ⟨k, myLine, money, fromLine, SSN,
          .serve .getApplicationCompletion⟩) val).1 = 1
      · rw [if_pos ha]
        exact ha
      · rw [if_neg ha]
        exact fun hv => absurd rfl hv
    | getPictureCompletion =>
      simp only [next, nextServe]
      by_cases ha : (answered n (Clerk.request ⟨k, myLine, money, fromLine, SSN,
          .serve .getPictureCompletion⟩) val).1 = 1
      · rw [if_pos ha]
        exact fun _ => ⟨h, ha⟩
      · rw [if_neg ha]
        exact fun hv => absurd rfl hv
    | _ => trivial
  | exited => trivial

end Reading

variable {T : Type} [DecidableEq T] [Fintype T] {o : Office T} {s s' : State T}

/-- A completion is not taken back. -/
theorem Loc.recorded_moved {n : Nat} {p : Loc} {x : MV}
    (hx : x = .applicationCompletion ∨ x = .pictureCompletion) {val : MV → Int → Int} {i : Int}
    (h : x.get val i = 1) : x.get (answered n p.request val).2 i = 1 := by
  rcases get_answered_cases n p.request x val i with hsame | ⟨v, hset, hv⟩
  · exact hsame.trans h
  · obtain ⟨c, -, hset'⟩ := Loc.sets_record hset (.inr (.inr (.inr hx)))
    rw [hv]
    exact (Clerk.sets_record hset').2.2.2 hx

theorem Office.inOrder_init : InOrder o.init where
  certified n hn := by
    refine absurd ?_ hn
    show (if 0 ≤ n ∧ n < _ then (0 : Int) else 0) = 0
    rw [ite_self]
  read t c hc := by
    have hloc : (o.process t).start = .clerk c := hc
    cases hp : o.process t <;> rw [hp] at hloc <;> cases hloc
    trivial

/-- **They stay in order**, through every piece of the server's work. -/
theorem Office.inOrder_micro (hs : o.Sound s) (h : InOrder s) {w : Option T}
    (hm : Micro (program o.CLERKCOUNT) s w s') : InOrder s' := by
  rcases (moved_micro (discipline _) hs.locked hm).advances hs.locked with
    ⟨hloc, hval⟩ | ⟨t, r, hloc, hval, -⟩
  · exact ⟨by rw [hval]; exact h.certified, by rw [hloc, hval]; exact h.read⟩
  · have hfiled : ∀ {n}, Filed s.val n → Filed s'.val n := fun hf => by
      rw [hval]
      exact ⟨Loc.recorded_moved (.inl rfl) hf.1, Loc.recorded_moved (.inr rfl) hf.2⟩
    have hread : ∀ {c : Clerk}, c.HasRead s.val → c.HasRead s'.val := fun hr => by
      rw [hval]
      exact hr.mono (Loc.recorded_moved (.inl rfl)) (Loc.recorded_moved (.inr rfl))
    refine ⟨fun n hn => ?_, fun u c hu => ?_⟩
    · have hn' : MV.passportCompletion.get (answered o.CLERKCOUNT (s.loc t).request s.val).2 n ≠ 0 :=
        hval ▸ hn
      rcases get_answered_cases o.CLERKCOUNT (s.loc t).request .passportCompletion s.val n with
        hsame | ⟨v, hset, -⟩
      · rw [hsame] at hn'
        exact hfiled (h.certified n hn')
      · -- the clerk that certifies it has read both
        obtain ⟨c, hc, hset'⟩ := Loc.sets_record hset (.inr (.inl rfl))
        obtain ⟨hpc, -⟩ := (Clerk.sets_record hset').2.1 rfl
        have hr := h.read t c hc
        obtain ⟨k, myLine, money, fromLine, SSN, pc⟩ := c
        cases hpc
        cases hset'
        exact hfiled hr
    · by_cases hut : u = t
      · subst hut
        rw [hloc, Function.update_self] at hu
        cases hp : s.loc u with
        | clerk d =>
          rw [hp] at hu
          cases hu
          exact hread (Clerk.hasRead_next (h.read u d hp) r)
        | _ =>
          rw [hp] at hu
          cases hu
      · rw [hloc, Function.update_of_ne hut] at hu
        exact hread (h.read u c hu)

/-- **Passports are issued in order.** Only what was filed is certified; who is at the counter of a
cashier has its passport certified; and no cashier rejects anybody. -/
theorem Office.issued_in_order (h : Reachable o.Step o.init s) :
    (∀ n, Certified s.val n → Filed s.val n) ∧
    (FewNumbers s →
      (∀ t i n, (s.loc t).AtCounter .cashier i → (s.loc t).SSN = some n → Certified s.val n) ∧
      (∀ t c v, s.loc t = .clerk c → c.pc = .serve (.setRejection v) → v = 0) ∧
      ∀ n, MV.cashierRejection.get s.val n = 0) := by
  obtain ⟨hs, -, hserved⟩ := served h
  have horder : o.Sound s ∧ InOrder s :=
    reachable_of_micro (I := fun s => o.Sound s ∧ InOrder s)
      (fun _ _ _ ⟨hs, hin⟩ hm => ⟨sound_micro hs hm, inOrder_micro hs hin hm⟩) h
      ⟨sound_init, inOrder_init⟩ settled_init
  refine ⟨horder.2.certified, fun hsmall => ⟨?_, fun t c v => (hserved hsmall).rejects,
    (hserved hsmall).rejections⟩⟩
  rintro t i n ⟨q, hq⟩ hn
  exact (hserved hsmall).certified hq hn

/-- A clerk of each kind, and a customer. -/
def passportDay : Office (Fin 5) where
  process t := match t with
    | 0 => .clerk .application
    | 1 => .clerk .picture
    | 2 => .clerk .passport
    | 3 => .clerk .cashier
    | 4 => .customer 0 0
  STARTPASSPORT := false
  manager_unique t u := by
    revert t u
    decide

/-- The customer goes to all four: how many requests each makes, in turns. -/
def passportTurns : List (Fin 5 × Nat) :=
  [(4, 18), (1, 15), (4, 6), (1, 1), (4, 3), (1, 5), (4, 4), (1, 5), (4, 12), (0, 16), (4, 9),
    (0, 4), (4, 11), (2, 15), (4, 6), (2, 1), (4, 3), (2, 7), (4, 12), (3, 15), (4, 6)]

theorem passportDay_issued : ∃ s, Reachable passportDay.Step passportDay.init s ∧
    (s.loc 4).AtCounter .cashier 0 ∧ (s.loc 4).SSN = some 0 ∧ Certified s.val 0 ∧
    Filed s.val 0 := by
  have hrun : (execute passportDay.step passportDay.init
      (passportTurns.flatMap fun a => List.replicate a.2 (a.1, 0))).any (fun s =>
      decide (FewNumbers s) && (decide ((s.loc 4).SSN = some 0) &&
        ((s.loc 4).talk .cashier 0).isSome)) = true := by
    decide +kernel
  obtain ⟨s, hs, hin⟩ := (Option.any_eq_true _ _).mp hrun
  obtain ⟨hsmall, hin⟩ := Bool.and_eq_true_iff.mp hin
  obtain ⟨hSSN, htalk⟩ := Bool.and_eq_true_iff.mp hin
  have hreach : Reachable passportDay.Step passportDay.init s :=
    ⟨_, path_of_execute (fun _ _ _ => id) hs⟩
  obtain ⟨hfiled, hissued⟩ := Office.issued_in_order hreach
  have hat : (s.loc 4).AtCounter .cashier 0 := Option.isSome_iff_exists.mp htalk
  have hcertified := (hissued (of_decide_eq_true hsmall)).1 4 0 0 hat (of_decide_eq_true hSSN)
  exact ⟨s, hreach, hat, of_decide_eq_true hSSN, hcertified, hfiled 0 hcertified⟩

end Nachos.Passport

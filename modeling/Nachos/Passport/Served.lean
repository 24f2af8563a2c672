import Nachos.Passport.Records

/-!
# The passport office: one customer at a counter

All that holds of the visits goes on holding, as long as the numbers that are drawn are smaller
than the arrays of the completions (`FewNumbers`). Then each clerk has one customer at most, which
it has called; nobody takes the way past the line lock; and passports are issued in order.
-/

namespace Nachos.Passport

open Lib Lib.Monitor

set_option linter.unusedSectionVars false

variable {T : Type} [DecidableEq T] [Fintype T] {o : Office T} {s s' : State T}

/-- There is a place in the arrays for each number that was drawn. -/
def FewNumbers (s : State T) : Prop :=
  ∀ t n, (s.loc t).SSN = some n → n < MAXCUSTOMERS + MAXSENATORS

/-- At the counter of a clerk: from setting its state to `BUSY` to the release of its lock. -/
def Loc.AtCounter (k : Kind) (i : Int) (p : Loc) : Prop := ∃ q, p.talk k i = some q

/-! ### All day -/

theorem Process.start_line (p : Process) (k : Kind) : p.start.line k = none := by
  cases p with
  | clerk k' =>
    show (if k' = k then none else none) = none
    rw [ite_self]
  | _ => rfl

theorem Process.start_SSN (p : Process) : p.start.SSN = none := by
  cases p <;> rfl

theorem Process.start_talk (p : Process) (k : Kind) (i : Int) : p.start.talk k i = none := by
  unfold Loc.talk
  rw [p.start_visit]

theorem Office.served_init : o.Served o.init := by
  have hvisit : ∀ t v, (o.init.loc t).visit ≠ some v := fun t v hv => by
    cases (o.process t).start_visit.symm.trans hv
  have htalk : ∀ t k i q, (o.init.loc t).talk k i ≠ some q := fun t k i q hq => by
    cases ((o.process t).start_talk k i).symm.trans hq
  have hSSN : ∀ t n, (o.init.loc t).SSN ≠ some n := fun t n hn => by
    cases (o.process t).start_SSN.symm.trans hn
  have hline : ∀ t k i, (o.init.loc t).line k ≠ some i := fun t k i hi => by
    cases ((o.process t).start_line k).symm.trans hi
  have hbusy : ∀ k (i : Int), 0 ≤ i ∧ i < MAXCLERKS → MV.get o.init.val (.clerkState k) i = BUSY :=
    fun k i hi => if_pos hi
  have hclerk : ∀ t c, o.init.loc t = .clerk c → c.pc = .draw .acquire := by
    intro t c hc
    have hloc : (o.process t).start = .clerk c := hc
    cases hp : o.process t <;> rw [hp] at hloc <;> cases hloc
    rfl
  have hcustomer : ∀ t c, o.init.loc t = .customer c → c.pc = .checkIn .acquire := by
    intro t c hc
    have hloc : (o.process t).start = .customer c := hc
    cases hp : o.process t <;> rw [hp] at hloc <;> cases hloc
    rfl
  have hpending : ∀ t k i m, ¬ (o.init.loc t).Pending k i m := by
    intro t k i m hp
    obtain ⟨bribe, q, hv, -⟩ := hp.chosen
    exact hvisit t _ hv
  have hdone : ∀ t me, (o.init.loc t).person = some me → me.done .passport = false := by
    intro t me hme
    have hloc : ((o.process t).start).person = some me := hme
    cases hp : o.process t <;> rw [hp] at hloc <;> cases hloc <;> rfl
  refine ⟨?_, ?_, ?_, ?_, ?_, ?_, ?_, ?_, ?_, ?_, ?_, ?_, ?_, ?_, ?_, ?_, ?_, ?_⟩
  · intro t
    show ((o.process t).start).Proper
    cases o.process t with
    | clerk k => rintro p ⟨⟩
    | _ => trivial
  · exact ⟨le_rfl, fun t n hn => absurd hn (hSSN t n), fun t u n hn => absurd hn (hSSN t n)⟩
  · exact fun k => ⟨le_rfl, fun t n hn => absurd hn (hline t k n),
      fun t u n hn => absurd hn (hline t k n)⟩
  · intro k i hi
    rw [hbusy k i hi]
    decide
  · exact fun t k bribe p i hv => absurd hv (hvisit t _)
  · intro k i hi
    refine ⟨fun u v q q' hu => absurd hu (htalk u k i q), fun u q hu => absurd hu (htalk u k i q),
      fun t c u q _ hl => absurd hl (hline t k i), fun hsig => ?_,
      fun _ u q hu => absurd hu (htalk u k i q), fun t c _ hl => absurd hl (hline t k i)⟩
    cases (hbusy k i hi).symm.trans hsig
  · exact fun t k bribe i p hv => hvisit t _ hv
  · rintro t c hc (⟨k, bribe, i, hpc⟩ | ⟨k, bribe, i, p, hpc, -⟩)
    · cases (hcustomer t c hc).symm.trans hpc
    · cases (hcustomer t c hc).symm.trans hpc
  · intro t c k bribe i hc hpc
    cases (hcustomer t c hc).symm.trans hpc
  · rintro t c hc (hpc | ⟨p, hpc⟩)
    · cases (hclerk t c hc).symm.trans hpc
    · cases (hclerk t c hc).symm.trans hpc
  · exact fun t k i q hq => absurd hq (htalk t k i q)
  · rintro - k i - u v (hu | hu) -
    · exact absurd hu (hpending u k i _)
    · exact absurd hu (htalk u k i _)
  · exact fun _ k i u hu => absurd hu (hpending u k i _)
  · exact fun t me hme _ => hdone t me hme
  · intro n
    show (if 0 ≤ n ∧ n < _ then (0 : Int) else 0) = 0
    rw [ite_self]
  · exact fun t me n _ hn => absurd hn (hSSN t n)
  · exact fun t n i hn => absurd hn (hSSN t n)
  · exact fun t c i _ hl => absurd hl (hline t .passport i)

/-- When the flag is taken back nobody is on its way to a counter. -/
theorem Office.Served.none_when_lowered (hs : o.Sound s) (hex : o.Exclusive s) (hx : o.Served s)
    {w : Option T} (hm : Moved (program o.CLERKCOUNT) s s' w) (hflag : flag s.val ≠ 0)
    (hflag' : flag s'.val = 0) (u : T) : (s'.loc u).visit = none := by
  rcases hm.advances hs.locked with ⟨-, hval⟩ | ⟨t, r, hloc, hval, -⟩
  · rw [hval] at hflag'
    exact absurd hflag' hflag
  · have hpc := lowered hval hflag hflag'
    rw [hloc]
    by_cases hut : u = t
    · subst hut
      rw [Function.update_self, hpc]
      rfl
    · rw [Function.update_of_ne hut]
      exact none_visits hs hex hx hpc u

/-- **It all goes on**, through every piece of the server's work. -/
theorem Office.served_micro (hs : o.Sound s) (hex : o.Exclusive s) (hx : o.Served s)
    (hsmall : FewNumbers s) {w : Option T} (hmicro : Micro (program o.CLERKCOUNT) s w s') :
    o.Served s' := by
  have hm := moved_micro (discipline _) hs.locked hmicro
  have hmoves := hm.advances hs.locked
  refine ⟨?_, ?_, ?_, ?_, ?_, ?_, ?_, ?_, ?_, ?_, ?_, ?_, ?_, ?_, ?_, ?_, ?_, ?_⟩
  · exact everywhere_micro (Q := fun _ p => p.Proper) (fun _ _ _ _ hp => Loc.proper_next hp)
      hx.proper hmicro
  · exact drawn_micro (draws_SSN _) (discipline _) hs.locked hs.known hx.numbers hmicro
  · exact fun k => drawn_micro (draws_line _ k) (discipline _) hs.locked hs.known (hx.lines k)
      hmicro
  · rcases hmoves with ⟨-, hval⟩ | ⟨t, r, hloc, hval, -⟩
    · rw [hval]
      exact hx.states
    · exact states_moved hx hval
  · rcases hmoves with ⟨hloc, -⟩ | ⟨t, r, hloc, -⟩
    · rw [hloc]
      exact hx.chosen
    · exact chosen_moved hx hloc
  · exact fun k i hi => (hx.counter k i hi).micro hs hx hi hmicro
  · rcases hmoves with ⟨hloc, -⟩ | ⟨t, r, hloc, -⟩
    · rw [hloc]
      exact hx.locked
    · exact locked_moved hx hloc
  · rcases hmoves with ⟨hloc, hval⟩ | ⟨t, r, hloc, hval, -⟩
    · rw [hloc, hval]
      exact hx.turned
    · exact turned_moved hs hex hx hloc hval
  · rcases hmoves with ⟨hloc, -⟩ | ⟨t, r, hloc, -⟩
    · rw [hloc]
      exact hx.outside
    · exact outside_moved hx hloc
  · rcases hmoves with ⟨hloc, -⟩ | ⟨t, r, hloc, -, hlives, -⟩
    · rw [hloc]
      exact hx.ranged
    · exact ranged_moved hx hloc hlives
  · rcases hmoves with ⟨hloc, -⟩ | ⟨t, r, hloc, -, hlives, -⟩
    · rw [hloc]
      exact hx.seated
    · exact seated_moved hx hloc hlives
  · intro hflag' k i hi u v hu hv
    by_cases hflag : flag s.val = 0
    · exact hx.pending_one_kept hs hex hflag hi hm hu hv
    · have hnone := hx.none_when_lowered hs hex hm hflag hflag' u
      rcases hu with hu | hu
      · obtain ⟨bribe, q, hvisit, -⟩ := hu.chosen
        cases hnone.symm.trans hvisit
      · obtain ⟨bribe, hvisit⟩ := Loc.talk_iff.mp hu
        cases hnone.symm.trans hvisit
  · intro hflag' k i u hu
    by_cases hflag : flag s.val = 0
    · exact hx.pending_kept hs hex hflag hm hu
    · obtain ⟨bribe, q, hvisit, -⟩ := hu.chosen
      cases (hx.none_when_lowered hs hex hm hflag hflag' u).symm.trans hvisit
  · rcases hmoves with ⟨hloc, -⟩ | ⟨t, r, hloc, hval, -⟩
    · rw [hloc]
      exact hx.fresh
    · exact fresh_moved hx hloc
  · rcases hmoves with ⟨-, hval⟩ | ⟨t, r, hloc, hval, -⟩
    · rw [hval]
      exact hx.rejections
    · exact rejections_moved hx hval
  · rcases hmoves with ⟨hloc, hval⟩ | ⟨t, r, hloc, hval, -⟩
    · rw [hloc, hval]
      exact hx.issued
    · exact issued_moved hs hx hloc hval
  · exact judged_micro hs hx hm
  · rcases hmoves with ⟨hloc, hval⟩ | ⟨t, r, hloc, hval, -⟩
    · rw [hloc, hval]
      exact hx.judging
    · exact fun u c i hu hline _ => judging_moved hx hloc hval hsmall u c i hu hline

/-- The numbers that were drawn are kept. -/
theorem Office.fewNumbers_micro (hs : o.Sound s) {w : Option T}
    (hm : Micro (program o.CLERKCOUNT) s w s') (h : FewNumbers s') : FewNumbers s :=
  fun t n hn => h t n ((draws_SSN _).kept (discipline _) hs.locked hs.known hm hn)

/-- **What holds in every state of the day**, while there is a place for each number. -/
theorem Office.served (h : Reachable o.Step o.init s) :
    o.Sound s ∧ o.Exclusive s ∧ (FewNumbers s → o.Served s) :=
  reachable_of_micro (I := fun s => o.Sound s ∧ o.Exclusive s ∧ (FewNumbers s → o.Served s))
    (fun _ _ _ ⟨hs, hex, hx⟩ hm => ⟨sound_micro hs hm, exclusive_micro hs hex hm, fun hsmall =>
      have hbefore := fewNumbers_micro hs hm hsmall
      served_micro hs hex (hx hbefore) hbefore hm⟩) h
    ⟨sound_init, exclusive_init, fun _ => served_init⟩ settled_init

end Nachos.Passport

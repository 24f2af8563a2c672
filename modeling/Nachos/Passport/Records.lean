import Nachos.Passport.Calls

/-!
# The passport office: what is recorded under a number

The arrays of the completions are indexed by social security number. A number belongs to one
process, which is at one counter at most, so what a clerk files under the number of its customer
nobody changes while the two are together. While the numbers are smaller than the arrays, who has
done with the passport clerk has its passport certified, and no cashier rejects it.
-/

namespace Nachos.Passport

open Lib Lib.Monitor

set_option linter.unusedSectionVars false

/-! ### Who writes the records -/

/-- Where a clerk writes what is recorded under a number. -/
theorem Clerk.sets_record {c : Clerk} {x : MV} {n v : Int} (h : c.request = .Set x n v) :
    (x = .passportPunishment → c.pc = .serve (.setPunishment v) ∧ n = c.customerSSN) ∧
      (x = .passportCompletion → c.pc = .serve .setPassportCompletion ∧ v = 1) ∧
      (x = .cashierRejection → c.pc = .serve (.setRejection v)) ∧
      (x = .applicationCompletion ∨ x = .pictureCompletion → v = 1) := by
  obtain ⟨k, myLine, money, fromLine, SSN, pc⟩ := c
  cases pc with
  | draw p => cases p with
    | set =>
      cases h
      simp
    | _ => cases h
  | senator p => cases p <;> cases h
  | call p => cases p with
    | acquireClerk => exact absurd h not_set_acquireClerkLock
    | onBreak p => cases p <;> cases h <;> simp
    | _ => cases h <;> simp
  | serve p => cases p <;> cases h <;> simp
  | exited => cases h

/-- Clerks write the records. -/
theorem Loc.sets_record {p : Loc} {x : MV} {n v : Int} (h : p.request = .Set x n v)
    (hx : x = .passportPunishment ∨ x = .passportCompletion ∨ x = .cashierRejection ∨
      x = .applicationCompletion ∨ x = .pictureCompletion) :
    ∃ c, p = .clerk c ∧ c.request = .Set x n v := by
  have hwriter := p.writtenBy h
  cases p with
  | clerk c => exact ⟨c, rfl, h⟩
  | _ => rcases hx with rfl | rfl | rfl | rfl | rfl <;> cases hwriter

/-- A passport clerk comes to its last signal when it has filed the one thing or the other. -/
theorem Clerk.signal_next {n : Nat} {c : Clerk} {a : Int} {r : Nat} (hk : c.kind = .passport)
    (hof : ∀ p, c.pc = .serve p → p.of .passport = true)
    (h : (c.next n a r).pc = .serve .signal) :
    (c.pc = .serve (.setPunishment 1) ∨ c.pc = .serve .setPassportCompletion) ∧
      (c.next n a r).customerSSN = c.customerSSN := by
  obtain ⟨k, myLine, money, fromLine, SSN, pc⟩ := c
  obtain rfl : k = .passport := hk
  cases pc with
  | draw p => cases p <;> cases h
  | senator p => cases p with
    | release waiting => cases waiting <;> cases h
    | _ => cases h
  | call p => cases p with
    | onBreak p => cases p with
      | releaseEnd => cases h
      | _ =>
        simp only [next, nextCall] at h
        split at h <;> cases h
    | getBribeLineCount | getLineCount =>
      simp only [next, nextCall] at h
      split at h <;> cases h
    | _ => cases h
  | serve p =>
    have hp := hof p rfl
    cases p with
    | setPunishment v =>
      simp only [next, nextServe] at h ⊢
      split at h
      · rename_i q hq
        split at hq
        · rename_i hv
          subst hv
          exact ⟨.inl rfl, rfl⟩
        · cases hq
          cases h
      · cases h
    | setPassportCompletion => exact ⟨.inr rfl, rfl⟩
    | getApplicationCompletion | getPictureCompletion =>
      simp only [next, nextServe] at h
      split at h
      · rename_i hq
        split at hq <;> cases hq <;> cases h
      · cases h
    | wait | getSSN | signal | release => cases h
    | _ => cases hp
  | exited => cases h

theorem Person.done_setDone (me : Person) (k k' : Kind) (result : Bool) :
    (me.setDone k result).done k' = if k' = k then result else me.done k' :=
  Function.update_apply _ _ _ _

/-- How one comes to have done with the passport clerk. -/
theorem Loc.issued_next {n : Nat} {p : Loc} {a : Int} {r : Nat} {me : Person}
    (h : (p.next n a r).person = some me) (hdone : me.done .passport = true) :
    (∃ me₀, p.person = some me₀ ∧ me₀.done .passport = true) ∨
      ∃ i, p.talk .passport i = some (.release true) := by
  -- a visit that returns has said so at the counter
  have hreturned : ∀ {v : Visit} {result}, p.visit = some v → v.next n a r = .returned result →
      ∀ {me₀ : Person}, (me₀.setDone v.kind result).done .passport = true →
        me₀.done .passport = true ∨ ∃ i, p.talk .passport i = some (.release true) := by
    rintro ⟨k, bribe, pc⟩ result hv hnext me₀ hset
    by_cases hk : Kind.passport = k
    · subst hk
      rw [Person.done_setDone, if_pos rfl] at hset
      subst hset
      cases pc with
      | line p => cases p with
        | join myLine b | leave myLine b => cases b <;> cases hnext
        | getState _ _ _ _ | getMyState _ | look _ =>
          simp only [Visit.next, Visit.Line.next] at hnext
          split at hnext <;> cases hnext
        | _ => cases hnext
      | unlocked myLine p => cases p <;> cases hnext
      | talk myLine q => cases q with
        | release done =>
          cases hnext
          exact .inr ⟨myLine, talk_iff.mpr ⟨bribe, hv⟩⟩
        | getPicture | getRejection =>
          simp only [Visit.next, Visit.Talk.next] at hnext
          split at hnext <;> cases hnext
        | _ => cases hnext
    · rw [Person.done_setDone, if_neg hk] at hset
      exact .inl hset
  -- a visit that is given up has not
  have hgiven : ∀ {me₀ : Person} {k}, (me₀.setDone k false).done .passport = true →
      me₀.done .passport = true := by
    intro me₀ k hset
    rw [Person.done_setDone] at hset
    split at hset
    · cases hset
    · exact hset
  cases p with
  | customer c =>
    obtain ⟨me₀, past, pc⟩ := c
    have hkept : ∀ {me₁ : Person}, some me₁ = some me → me₁.done = me₀.done →
        ∃ me₀', (Loc.customer ⟨me₀, past, pc⟩).person = some me₀' ∧ me₀'.done .passport = true := by
      rintro me₁ heq hsame
      cases heq
      exact ⟨me₀, rfl, hsame ▸ hdone⟩
    cases pc with
    | visit v =>
      simp only [next, Customer.next] at h
      split at h
      · exact .inl (hkept h rfl)
      · exact .inl (hkept h rfl)
      · rename_i result hnext
        cases h
        exact (hreturned rfl hnext hdone).imp_left fun hme => ⟨me₀, rfl, hme⟩
    | draw p =>
      simp only [next, Customer.next] at h
      split at h
      · exact .inl (hkept h (by cases p <;> rfl))
      · exact .inl (hkept h rfl)
    | checkIn p | checkOut p =>
      simp only [next, Customer.next] at h
      split at h <;> exact .inl (hkept h rfl)
    | check p =>
      simp only [next, Customer.next, Customer.choose] at h
      split at h
      · exact .inl (hkept h rfl)
      · split at h <;> exact .inl (hkept h rfl)
    | recheck k bribe myLine p =>
      simp only [next, Customer.next, Customer.rechecked] at h
      split at h
      · exact .inl (hkept h rfl)
      · split at h
        · cases h
          exact .inl ⟨me₀, rfl, hgiven hdone⟩
        · refine .inl (hkept h ?_)
          cases bribe <;> rfl
    | exited => exact .inl (hkept h rfl)
  | senator c =>
    obtain ⟨me₀, pc⟩ := c
    have hkept : ∀ {me₁ : Person}, some me₁ = some me → me₁.done = me₀.done →
        ∃ me₀', (Loc.senator ⟨me₀, pc⟩).person = some me₀' ∧ me₀'.done .passport = true := by
      rintro me₁ heq hsame
      cases heq
      exact ⟨me₀, rfl, hsame ▸ hdone⟩
    have hchoose : ∀ c : Senator, (Loc.senator (c.choose r)).person = some c.me := by
      intro c
      unfold Senator.choose
      split <;> rfl
    cases pc with
    | visit v =>
      simp only [next, Senator.next] at h
      split at h
      · exact .inl (hkept h rfl)
      · cases (hchoose _).symm.trans h
        exact .inl ⟨me₀, rfl, hgiven hdone⟩
      · rename_i result hnext
        cases (hchoose _).symm.trans h
        exact (hreturned rfl hnext hdone).imp_left fun hme => ⟨me₀, rfl, hme⟩
    | draw p =>
      simp only [next, Senator.next] at h
      split at h
      · exact .inl (hkept h (by cases p <;> rfl))
      · exact .inl (hkept h rfl)
    | arrive p =>
      simp only [next, Senator.next] at h
      split at h
      · exact .inl (hkept h rfl)
      · exact .inl (hkept ((hchoose _).symm.trans h) rfl)
    | leave p =>
      simp only [next, Senator.next] at h
      split at h <;> exact .inl (hkept h rfl)
    | exited => exact .inl (hkept h rfl)
  | _ => cases h

section Records

variable {T : Type} [DecidableEq T] [Fintype T] {o : Office T} {s s' : State T}

/-! ### A clerk and its customer -/

/-- **A clerk that serves** has its own counter, and a customer there. -/
theorem Office.Served.facing (hx : o.Served s) {t : T} {c : Clerk} {p : Passport.Serve}
    (hc : s.loc t = .clerk c) (hpc : c.pc = .serve p)
    (hp : p ≠ .wait ∧ p ≠ .setApplicationCompletion) :
    (0 ≤ c.myLine ∧ c.myLine < MAXCLERKS) ∧ (s.loc t).line c.kind = some c.myLine ∧
      ∃ u q, (s.loc u).talk c.kind c.myLine = some q ∧
        Fits c.kind c.myLine s.val (s.owner (.clerkLock c.kind c.myLine) = none) c (s.mode t)
          (s.loc u).SSN q (s.mode u) := by
  have hrange := hx.ranged t c hc (.inr ⟨p, hpc⟩)
  have hline : (s.loc t).line c.kind = some c.myLine := by
    rw [hc]
    show (if c.kind = c.kind then c.line else none) = some c.myLine
    rw [if_pos rfl, Clerk.line, hpc]
  have hdesk := hx.counter c.kind c.myLine hrange
  obtain ⟨u, q, hu⟩ := hdesk.engaged t c hc hline ⟨p, hpc, hp.2, fun h => absurd h hp.1⟩
  exact ⟨hrange, hline, u, q, hu, hdesk.fits t c u q hc hline hu⟩

/-- A process is at one counter. -/
theorem Loc.talk_unique {p : Loc} {k k' : Kind} {i i' : Int} {q q' : Talk}
    (h : p.talk k i = some q) (h' : p.talk k' i' = some q') : k = k' ∧ i = i' ∧ q = q' := by
  obtain ⟨bribe, hv⟩ := talk_iff.mp h
  obtain ⟨bribe', hv'⟩ := talk_iff.mp h'
  cases hv.symm.trans hv'
  exact ⟨rfl, rfl, rfl⟩

/-- **A clerk punishes its customer**, which waits for it. -/
theorem Office.Served.punishes (hx : o.Served s) {t : T} {n v : Int}
    (h : (s.loc t).request = .Set .passportPunishment n v) :
    ∃ i u, (s.loc t).line .passport = some i ∧ (s.loc u).SSN = some n ∧
      (s.loc u).talk .passport i = some .wait ∧ s.mode u = .asleep (.clerkCV .passport i) := by
  obtain ⟨c, hc, hset⟩ := Loc.sets_record h (.inl rfl)
  obtain ⟨hpc, rfl⟩ := (Clerk.sets_record hset).1 rfl
  have hof := hx.proper t
  rw [hc] at hof
  have hk : c.kind = .passport := of_decide_eq_true (hof _ hpc)
  obtain ⟨-, hline, u, q, hu, hfits⟩ := hx.facing hc hpc (by simp)
  rw [hk] at hline hu hfits
  unfold Fits at hfits
  rw [hpc] at hfits
  obtain ⟨rfl, hmode, hSSN⟩ := hfits
  exact ⟨c.myLine, u, hline, hSSN, hu, hmode⟩

/-- **No cashier rejects.** -/
theorem Office.Served.rejects (hx : o.Served s) {t : T} {c : Clerk} {v : Int}
    (hc : s.loc t = .clerk c) (hpc : c.pc = .serve (.setRejection v)) : v = 0 := by
  obtain ⟨-, -, u, q, -, hfits⟩ := hx.facing hc hpc (by simp)
  unfold Fits at hfits
  rw [hpc] at hfits
  exact hfits.1

/-! ### What is kept as a process goes on -/

section Moved

variable {t : T} {r : Nat} (hs : o.Sound s) (hx : o.Served s)
  (hloc : s'.loc = Function.update s.loc t
    ((s.loc t).next o.CLERKCOUNT (answered o.CLERKCOUNT (s.loc t).request s.val).1 r))
  (hval : s'.val = (answered o.CLERKCOUNT (s.loc t).request s.val).2)

include hval

/-- A certificate is not taken back. -/
theorem Office.certified_moved {n : Int} (h : Certified s.val n) : Certified s'.val n := by
  unfold Certified at h ⊢
  rw [hval]
  rcases get_answered_cases o.CLERKCOUNT (s.loc t).request .passportCompletion s.val n with
    hsame | ⟨v, hset, hv⟩
  · rw [hsame]
    exact h
  · obtain ⟨c, -, hset'⟩ := Loc.sets_record hset (.inr (.inl rfl))
    rw [hv, ((Clerk.sets_record hset').2.1 rfl).2]
    decide

include hx

theorem Office.rejections_moved (n : Int) : MV.cashierRejection.get s'.val n = 0 := by
  rw [hval]
  rcases get_answered_cases o.CLERKCOUNT (s.loc t).request .cashierRejection s.val n with
    hsame | ⟨v, hset, hv⟩
  · rw [hsame]
    exact hx.rejections n
  · obtain ⟨c, hc, hset'⟩ := Loc.sets_record hset (.inr (.inr (.inl rfl)))
    rw [hv]
    exact hx.rejects hc ((Clerk.sets_record hset').2.2.1 rfl)

/-- A punishment stays while its customer does not wait asleep for its clerk. -/
theorem Office.punished_moved {n : Int} (h : Punished s.val n)
    (hnot : ∀ i u, (s.loc t).line .passport = some i → (s.loc u).SSN = some n →
      (s.loc u).talk .passport i = some .wait → s.mode u ≠ .asleep (.clerkCV .passport i)) :
    Punished s'.val n := by
  unfold Punished at h ⊢
  rw [hval]
  rcases get_answered_cases o.CLERKCOUNT (s.loc t).request .passportPunishment s.val n with
    hsame | ⟨v, hset, -⟩
  · rw [hsame]
    exact h
  · obtain ⟨i, u, hline, hn, hu, hmode⟩ := hx.punishes hset
    exact absurd hmode (hnot i u hline hn hu)

include hloc

/-- **What a passport clerk has filed** when it signals its customer for the last time. -/
theorem Office.judging_moved
    (hsmall : ∀ t n, (s.loc t).SSN = some n → n < MAXCUSTOMERS + MAXSENATORS) (u : T) (c : Clerk)
    (i : Int) (hu : s'.loc u = .clerk c) (hline : (s'.loc u).line .passport = some i)
    (hpc : c.pc = .serve .signal) :
    Punished s'.val c.customerSSN ∨ Certified s'.val c.customerSSN := by
  obtain ⟨c', hc', hk, hi, -⟩ := Loc.line_clerk hline
  cases hu.symm.trans hc'
  by_cases hut : u = t
  · subst hut
    rw [hloc, Function.update_self] at hu
    cases hp : s.loc u with
    | clerk d =>
      rw [hp] at hu
      cases hu
      have hof := hx.proper u
      rw [hp] at hof
      have hk' : d.kind = .passport := (d.next_kind _ _ _).symm.trans hk
      obtain ⟨hfrom, hSSN⟩ := Clerk.signal_next hk' (fun p hp' => hk' ▸ hof p hp') hpc
      -- the number is its customer's, so there is a place for it
      have hplace : 0 ≤ d.customerSSN ∧ d.customerSSN < (MAXCUSTOMERS + MAXSENATORS : Nat) := by
        have hn : ∃ v, (s.loc v).SSN = some d.customerSSN := by
          rcases hfrom with hd | hd
          · obtain ⟨-, -, v, q, -, hfits⟩ := hx.facing hp hd (by simp)
            unfold Fits at hfits
            rw [hd] at hfits
            exact ⟨v, hfits.2.2⟩
          · obtain ⟨-, -, v, q, -, hfits⟩ := hx.facing hp hd (by simp)
            unfold Fits at hfits
            rw [hd] at hfits
            exact ⟨v, hfits.2.2⟩
        obtain ⟨v, hv⟩ := hn
        refine ⟨(hx.numbers.lt v _ hv).1, ?_⟩
        have := hsmall v _ hv
        push_cast
        exact this
      rw [hSSN, hval, hp]
      obtain ⟨k, myLine, money, fromLine, SSN, pc⟩ := d
      rcases hfrom with hd | hd
      · cases hd
        exact .inl (get_set_self _ hplace)
      · cases hd
        refine .inr ?_
        have hone : MV.passportCompletion.get (answered o.CLERKCOUNT
            (.Set .passportCompletion SSN 1) s.val).2 SSN = 1 := get_set_self _ hplace
        show MV.passportCompletion.get (answered o.CLERKCOUNT
          (.Set .passportCompletion SSN 1) s.val).2 SSN ≠ 0
        rw [hone]
        decide
    | _ =>
      rw [hp] at hu
      cases hu
  · rw [hloc, Function.update_of_ne hut] at hu hline
    have hrange := hx.ranged u c hu (.inr ⟨_, hpc⟩)
    rw [hi] at hrange
    refine (hx.judging u c i hu hline hrange hpc).imp (fun hpunished => ?_) (certified_moved hval)
    -- another clerk has another customer
    refine punished_moved hx hval hpunished fun j v hj hn hv hmode => ?_
    obtain ⟨-, -, w, q, hw, hfits⟩ := hx.facing hu hpc (by simp)
    unfold Fits at hfits
    rw [hpc] at hfits
    obtain rfl := hx.numbers.unique v w _ hn hfits.2.2
    rw [hk, hi] at hw
    obtain ⟨-, rfl, -⟩ := Loc.talk_unique hv hw
    exact hut (hx.line_unique hj u hline)

include hs in
/-- **Who has done with the passport clerk is certified.** -/
theorem Office.issued_moved (u : T) (me : Person) (n : Int) (hu : (s'.loc u).person = some me)
    (hn : (s'.loc u).SSN = some n)
    (h : me.done .passport = true ∨ ∃ i, (s'.loc u).talk .passport i = some (.release true)) :
    Certified s'.val n := by
  refine certified_moved hval ?_
  by_cases hut : u = t
  · subst hut
    rw [hloc, Function.update_self] at hu hn h
    -- the number was drawn before
    have hperson : ∀ {k i q}, (s.loc u).talk k i = some q → ∃ me, (s.loc u).person = some me := by
      intro k i q hq
      obtain ⟨bribe, hv⟩ := Loc.talk_iff.mp hq
      rcases Loc.visit_cases hv with ⟨me, past, hp⟩ | ⟨me, hp⟩
      · exact ⟨me, by rw [hp]; rfl⟩
      · exact ⟨me, by rw [hp]; rfl⟩
    have hdrawn : (s.loc u).SSN ≠ none → (s.loc u).SSN = some n := by
      intro hsome
      rw [← hn]
      refine (Loc.SSN_next _ _ _ _ fun i v hset => hsome ?_).symm
      exact ((draws_SSN o.CLERKCOUNT).write _ i v s.val r hset
        (hs.claim fun c l hwait => by cases hset.symm.trans hwait)).2.2.1
    rcases h with hdone | ⟨i, htalk⟩
    · rcases Loc.issued_next hu hdone with ⟨me₀, hme, hdone₀⟩ | ⟨i, htalk⟩
      · refine hx.issued u me₀ n hme (hdrawn fun hnone => ?_) (.inl hdone₀)
        cases (hx.fresh u me₀ hme hnone).symm.trans hdone₀
      · obtain ⟨me₀, hme⟩ := hperson htalk
        obtain ⟨bribe, hv⟩ := Loc.talk_iff.mp htalk
        obtain ⟨number, hnumber, -, -⟩ := Loc.visit_SSN hv
        refine hx.issued u me₀ n hme (hdrawn ?_) (.inr ⟨i, htalk⟩)
        rw [hnumber]
        simp
    · rcases Loc.talk_next htalk with ⟨bribe, q, hv, hnext⟩ | ⟨heq, -⟩ | ⟨heq, -⟩ | ⟨bribe, hv⟩
      · have hq := Loc.talk_iff.mpr ⟨bribe, hv⟩
        have hof := Loc.talk_of (hx.proper u) hq
        obtain ⟨number, hnumber, hreq, -⟩ := Loc.visit_SSN hv
        cases q with
        | getPunishment =>
          have hSSN := hdrawn (by rw [hnumber]; simp)
          cases hnumber.symm.trans hSSN
          -- it has read that it is not punished
          have hnot : ¬ Punished s.val n := by
            intro hpunished
            have ha : (answered o.CLERKCOUNT (s.loc u).request s.val).1 = 1 := by
              rw [hreq]
              exact hpunished
            rw [ha] at hnext
            cases hnext
          have hrange := hx.seated u .passport i _ hq (by simp)
          exact (hx.judged u n i hSSN hrange (.inr hq)).resolve_left hnot
        | getPicture | waitPassport | getRejection => cases hof
        | _ => cases hnext
      · cases heq
      · cases heq
      · exact absurd hv (hx.locked u .passport bribe i _)
  · rw [hloc, Function.update_of_ne hut] at hu hn h
    exact hx.issued u me n hu hn h

omit hval in
/-- Before the number is drawn nothing is done. -/
theorem Office.fresh_moved (u : T) (me : Person) (hu : (s'.loc u).person = some me)
    (hn : (s'.loc u).SSN = none) : me.done .passport = false := by
  by_cases hut : u = t
  · subst hut
    rw [hloc, Function.update_self] at hu hn
    refine Bool.eq_false_iff.mpr fun hdone => ?_
    have hnone : (s.loc u).SSN = none := by
      by_cases hset : ∃ i v, (s.loc u).request = .Set .SSNCount i v
      · obtain ⟨i, v, hset⟩ := hset
        cases hp : s.loc u with
        | customer c =>
          rw [hp] at hset
          obtain ⟨me, past, pc⟩ := c
          cases pc with
          | draw p => cases p with
            | set => rfl
            | _ => cases hset
          | checkIn p => rfl
          | check p | recheck _ _ _ p => cases p with
            | goOutside b | joinLine b | goInside b | leaveLine b =>
              cases (Bump.request_set hset).1
            | _ => cases hset
          | visit w =>
            rcases w.writtenBy hset with ⟨k, hx | hx | hx | hx⟩ | hx <;> cases hx
          | checkOut p => cases p with
            | present b | checkedOut b => cases (Bump.request_set hset).1
            | _ => cases hset
          | exited => cases hset
        | senator c =>
          rw [hp] at hset
          obtain ⟨me, pc⟩ := c
          cases pc with
          | draw p => cases p with
            | set => rfl
            | _ => cases hset
          | arrive p => cases p with
            | joinLine b | leaveLine b | enter b => cases (Bump.request_set hset).1
            | _ => cases hset
          | visit w =>
            rcases w.writtenBy hset with ⟨k, hx | hx | hx | hx⟩ | hx <;> cases hx
          | leave p => cases p with
            | present b | checkedOut b => cases (Bump.request_set hset).1
            | _ => cases hset
          | exited => cases hset
        | _ => rfl
      · rw [← Loc.SSN_next o.CLERKCOUNT _ r (s.loc u) fun i v h => hset ⟨i, v, h⟩]
        exact hn
    rcases Loc.issued_next hu hdone with ⟨me₀, hme, hdone₀⟩ | ⟨i, htalk⟩
    · cases (hx.fresh u me₀ hme hnone).symm.trans hdone₀
    · obtain ⟨bribe, hv⟩ := Loc.talk_iff.mp htalk
      obtain ⟨number, hnumber, -, -⟩ := Loc.visit_SSN hv
      cases hnumber.symm.trans hnone
  · rw [hloc, Function.update_of_ne hut] at hu hn
    exact hx.fresh u me hu hn

end Moved

/-! ### A customer that is told -/

/-- A passport clerk signals its customer once. -/
theorem Clerk.signals_passport {c : Clerk} {k : Kind} {i : Int} {l : Lock} (hk : c.kind = .passport)
    (hof : ∀ p, c.pc = .serve p → p.of .passport = true)
    (h : c.request = .Signal (.clerkCV k i) l) : c.pc = .serve .signal := by
  obtain ⟨k', myLine, money, fromLine, SSN, pc⟩ := c
  cases pc with
  | draw p => cases p <;> cases h
  | senator p => cases p <;> cases h
  | call p => cases p with
    | acquireClerk =>
      have hlock : acquireClerkLock k' myLine = .Signal (.clerkCV k i) l := h
      unfold acquireClerkLock at hlock
      split at hlock <;> cases hlock
    | onBreak p => cases p <;> cases h
    | _ => cases h
  | serve p =>
    have hp := hof p rfl
    cases p <;> cases h
    · cases hp
    · cases hp
    · rfl
  | exited => cases h

/-- **A customer of the passport clerk that has been woken** is punished or certified. -/
theorem Office.judged_micro (hs : o.Sound s) (hx : o.Served s) {w : Option T}
    (hm : Moved (program o.CLERKCOUNT) s s' w) (u : T) (n i : Int) (hn : (s'.loc u).SSN = some n)
    (hrange : 0 ≤ i ∧ i < MAXCLERKS)
    (h : ((s'.loc u).talk .passport i = some .wait ∧
        s'.mode u = .queued (.clerkLock .passport i)) ∨
      (s'.loc u).talk .passport i = some .getPunishment) :
    Punished s'.val n ∨ Certified s'.val n := by
  have hwaits : ∀ {u}, (s.loc u).talk .passport i = some .wait →
      (program o.CLERKCOUNT).request (s.loc u) =
        .Wait (.clerkCV .passport i) (.clerkLock .passport i) := by
    intro u hu
    obtain ⟨bribe, hv⟩ := Loc.talk_iff.mp hu
    obtain ⟨number, -, hreq, -⟩ := Loc.visit_SSN hv
    exact hreq
  -- to its reading a customer comes from its wait
  have hreads : ∀ {u a r}, ((s.loc u).next o.CLERKCOUNT a r).talk .passport i =
      some .getPunishment → (s.loc u).talk .passport i = some .wait := by
    intro u a r hu
    rcases Loc.talk_next hu with ⟨bribe, q, hv, hnext⟩ | ⟨heq, -⟩ | ⟨heq, -⟩ | ⟨bribe, hv⟩
    · cases q with
      | wait => exact Loc.talk_iff.mpr ⟨bribe, hv⟩
      | getPicture | getRejection =>
        simp only [Visit.next, Visit.Talk.next] at hnext
        split at hnext <;> cases hnext
      | _ => cases hnext
    · cases heq
    · cases heq
    · exact absurd hv (hx.locked u .passport bribe i _)
  cases hm with
  | @stops t m hstop =>
    rw [hstop.loc] at hn h
    rw [hstop.val]
    refine hx.judged u n i hn hrange (h.imp_left fun hwait => ⟨hwait.1, ?_⟩)
    by_cases hut : u = t
    · subst hut
      have hmode := hwait.2
      rw [hstop.mode, Function.update_self] at hmode
      rcases hstop.why with ⟨l, v, hacq, -⟩ | ⟨c, l, -, -, rfl, -⟩
      · cases (hwaits hwait.1).symm.trans hacq
      · cases hmode
    · have hmode := hwait.2
      rwa [hstop.mode, Function.update_of_ne hut] at hmode
  | @granted t l hgrant =>
    rw [hgrant.val]
    by_cases hut : u = t
    · subst hut
      rw [hgrant.loc, Function.update_self] at hn h
      rw [hgrant.mode, Function.update_self] at h
      have hread := h.resolve_left fun hwait => by cases hwait.2
      have hwait := hreads hread
      refine hx.judged u n i ?_ hrange (.inl ⟨hwait, ?_⟩)
      · rw [← hn]
        refine (Loc.SSN_next _ _ _ _ fun j v hset => ?_).symm
        cases (hwaits hwait).symm.trans hset
      · rw [hgrant.queued, (hs.visitor_waits hwait).2.1 l hgrant.queued]
    · rw [hgrant.loc, Function.update_of_ne hut] at hn h
      rw [hgrant.mode, Function.update_of_ne hut] at h
      exact hx.judged u n i hn hrange h
  | @goes t r hgoes =>
    by_cases hut : u = t
    · subst hut
      have hrun : s'.mode u = .running := (hgoes.mode u fun e he => by
        cases hgoes.running.symm.trans he).trans hgoes.running
      rw [hrun] at h
      have hread := h.resolve_left fun hwait => by cases hwait.2
      rw [hgoes.loc, Function.update_self] at hread
      exact absurd (hwaits (hreads hread)) (hgoes.awake _ _)
    · rw [hgoes.loc, Function.update_of_ne hut] at hn h
      by_cases hsame : s'.mode u = s.mode u
      · rw [hsame] at h
        refine (hx.judged u n i hn hrange h).imp (fun hpunished => ?_)
          (certified_moved hgoes.val)
        refine punished_moved hx hgoes.val hpunished fun j v _ hv hwait hasleep => ?_
        obtain rfl := hx.numbers.unique v u n hv hn
        rcases h with ⟨htalk, hmode⟩ | htalk
        · cases hmode.symm.trans hasleep
        · cases (Loc.talk_unique htalk hwait).2.2
      · -- it was asleep, and its clerk has woken it
        obtain ⟨q, hq⟩ : ∃ q, (s.loc u).talk .passport i = some q := by
          rcases h with ⟨hq, -⟩ | hq
          · exact ⟨_, hq⟩
          · exact ⟨_, hq⟩
        obtain ⟨l, hwakes⟩ : ∃ l, (s.loc t).request = .Signal (.clerkCV .passport i) l ∨
            (s.loc t).request = .Broadcast (.clerkCV .passport i) l := by
          by_contra hnot
          refine hsame (hgoes.mode u fun d hd l => ?_)
          obtain rfl := (hs.visitor_waits hq).1 d hd
          exact ⟨fun hsig => hnot ⟨l, .inl hsig⟩, fun hb => hnot ⟨l, .inr hb⟩⟩
        have hconcerns : Concerns .passport i (s.loc t).request := by
          rcases hwakes with hreq | hreq <;> rw [hreq] <;> rfl
        rcases Loc.concerned (hx.proper t) hconcerns with hline | ⟨q', hq'⟩ | hunlocked
        · obtain ⟨c, hc, hk, hi, -, hof⟩ := hx.clerk_of hline
          rw [hc] at hwakes
          rcases hwakes with hsig | hb
          · have hpc := Clerk.signals_passport hk hof hsig
            have hfits := (hx.counter .passport i hrange).fits t c u q hc hline hq
            unfold Fits at hfits
            rw [hpc] at hfits
            cases hn.symm.trans hfits.2.2
            have hval : s'.val = s.val := by
              rw [hgoes.val, hc, show (program o.CLERKCOUNT).request (Loc.clerk c) = _ from hsig]
              rfl
            rw [hval]
            exact hx.judging t c i hc hline hrange hpc
          · exact absurd hb (c.not_broadcasts _ _)
        · exact absurd ((hx.counter .passport i hrange).one u t q q' hq hq') hut
        · exact absurd hunlocked (hx.not_unlocked t)

end Records

end Nachos.Passport

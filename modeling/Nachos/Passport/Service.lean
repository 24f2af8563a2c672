import Nachos.Passport.Counter

/-!
# The passport office: one customer at a counter

Each counter has one clerk and one customer at most, at places that go together (`AtCounter`).
The customer got there by the ticket that its clerk has left in the state, and no other way is
open: a customer that was woken in line, and finds neither itself called nor a flag, does not
exist. As long as nobody is kept outside, only a clerk wakes its line, and one at a time.
-/

namespace Nachos.Passport

open Lib Lib.Monitor

set_option linter.unusedSectionVars false

/-! ### The visitors of a counter -/

/-- What the process says at the counter. -/
def Loc.talk (k : Kind) (i : Int) (p : Loc) : Option Talk :=
  match p.visit with
  | some ⟨k', _, .talk j q⟩ => if k' = k ∧ j = i then some q else none
  | _ => none

theorem Loc.talk_iff {k : Kind} {i : Int} {p : Loc} {q : Talk} :
    p.talk k i = some q ↔ ∃ bribe, p.visit = some ⟨k, bribe, .talk i q⟩ := by
  unfold talk
  split
  · rename_i k' bribe j q' hv
    rw [hv]
    by_cases hki : k' = k ∧ j = i
    · obtain ⟨rfl, rfl⟩ := hki
      simp
    · rw [if_neg hki]
      refine iff_of_false (by simp) ?_
      rintro ⟨bribe', heq⟩
      cases heq
      exact hki ⟨rfl, rfl⟩
  · rename_i hnot
    refine iff_of_false (by simp) ?_
    rintro ⟨bribe, hv⟩
    exact hnot _ _ _ _ hv

/-- A visitor has its number, and does what the visit does. -/
theorem Loc.visit_SSN {p : Loc} {v : Visit} (h : p.visit = some v) :
    ∃ number, p.SSN = some number ∧ p.request = v.request number ∧ p.held = v.held := by
  rcases visit_cases h with ⟨me, past, rfl⟩ | ⟨me, rfl⟩
  · exact ⟨me.SSN, rfl, rfl, rfl⟩
  · exact ⟨me.SSN, rfl, rfl, rfl⟩

/-- How a process goes on in its visit. -/
theorem Loc.visit_goes {n : Nat} {p : Loc} {v : Visit} {a : Int} {r : Nat} (h : p.visit = some v)
    {pc : VisitPC} (hnext : v.next n a r = .at pc) :
    (p.next n a r).visit = some { v with pc := pc } := by
  rcases visit_cases h with ⟨me, past, rfl⟩ | ⟨me, rfl⟩
  · simp only [next, Customer.next, hnext]
    rfl
  · simp only [next, Senator.next, hnext]
    rfl

/-- **How a process comes to a counter.** -/
theorem Loc.talk_next {n : Nat} {k : Kind} {i : Int} {p : Loc} {a : Int} {r : Nat} {q' : Talk}
    (h : (p.next n a r).talk k i = some q') :
    (∃ bribe q, p.visit = some ⟨k, bribe, .talk i q⟩ ∧
        (Visit.mk k bribe (.talk i q)).next n a r = .at (.talk i q')) ∨
      (q' = .setBusy ∧ ∃ bribe, p.visit = some ⟨k, bribe, .line (.look i)⟩ ∧
        a = SIGNALEDCUSTOMER) ∨
      (q' = .setBusy ∧ ∃ bribe, p.visit = some ⟨k, bribe, .line (.getMyState i)⟩ ∧ a = AVAILABLE) ∨
      ∃ bribe, p.visit = some ⟨k, bribe, .unlocked i .release⟩ := by
  obtain ⟨bribe', hv⟩ := talk_iff.mp h
  rcases visit_next hv with ⟨⟨k', bribe, pc⟩, pc', hw, hnext, heq⟩ | hpc | ⟨myLine, hpc⟩
  · cases heq
    cases pc with
    | line p => cases p with
      | look myLine =>
        simp only [Visit.next, Visit.Line.next] at hnext
        split at hnext
        · cases hnext
        · rename_i ha
          cases hnext
          exact .inr (.inl ⟨rfl, _, hw, not_not.mp ha⟩)
      | getMyState myLine =>
        simp only [Visit.next, Visit.Line.next] at hnext
        split at hnext
        · cases hnext
        · rename_i ha
          cases hnext
          exact .inr (.inr (.inl ⟨rfl, _, hw, not_not.mp ha⟩))
      | join myLine b | leave myLine b => cases b <;> cases hnext
      | getState j myLine lineSize temp =>
        simp only [Visit.next, Visit.Line.next] at hnext
        split at hnext <;> cases hnext
      | _ => cases hnext
    | unlocked myLine p => cases p with
      | setBusy => cases hnext
      | release =>
        cases hnext
        exact .inr (.inr (.inr ⟨_, hw⟩))
    | talk myLine q =>
      have hline : myLine = i := by
        cases q <;> simp only [Visit.next, Visit.Talk.next] at hnext <;> grind
      subst hline
      exact .inl ⟨_, q, hw, hnext⟩
  · cases hpc
  · cases hpc

/-! ### What goes with a place in a program -/

/-- A visit of a person says what is said to its kind of clerk. Who visits a cashier has done with
the passport clerk. -/
def Visit.Proper (v : Visit) (me : Person) : Prop :=
  (v.kind = .cashier → me.done .passport = true) ∧
    ∀ i q, v.pc = .talk i q → q.of v.kind = true

/-- A customer goes to the clerks past its check, and stays so until it goes outside. -/
def Customer.Proper (c : Customer) : Prop :=
  match c.pc with
  | .visit v => c.pastCheck = true ∧ v.Proper c.me
  | .recheck k _ _ p =>
    (p = .acquire ∨ p = .getWaitOutSide ∨ p = .release false → c.pastCheck = true) ∧
      (k = .cashier → c.me.done .passport = true)
  | _ => True

/-- The place is one of the program of its kind of process. -/
def Loc.Proper : Loc → Prop
  | .customer c => c.Proper
  | .senator c => match c.pc with
    | .visit v => v.Proper c.me
    | _ => True
  | .clerk c => ∀ p, c.pc = .serve p → p.of c.kind = true
  | _ => True

theorem Person.choice_cashier {me : Person} (h : me.choice = some .cashier) :
    me.done .passport = true := by
  unfold choice at h
  grind

theorem Visit.proper_interaction {me : Person} {k : Kind} (h : me.choice = some k) (bribe : Bool) :
    (interaction k bribe).Proper me := by
  refine ⟨?_, ?_⟩
  · rintro rfl
    exact me.choice_cashier h
  · rintro i q ⟨⟩

theorem Visit.proper_next {n : Nat} {v : Visit} {me : Person} {a : Int} {r : Nat} {pc : VisitPC}
    (h : v.Proper me) (hnext : v.next n a r = .at pc) :
    ({ v with pc := pc } : Visit).Proper (me.pay v a) := by
  refine ⟨h.1, ?_⟩
  rintro i q rfl
  obtain ⟨k, bribe, p⟩ := v
  cases p with
  | line p => cases p with
    | look myLine | getMyState myLine =>
      simp only [next, Line.next] at hnext
      split at hnext <;> cases hnext
      rfl
    | join myLine b | leave myLine b => cases b <;> cases hnext
    | getState j myLine lineSize temp =>
      simp only [next, Line.next] at hnext
      split at hnext <;> cases hnext
    | _ => cases hnext
  | unlocked myLine p => cases p with
    | setBusy => cases hnext
    | release =>
      cases hnext
      rfl
  | talk myLine p =>
    have hline : myLine = i := by
      cases p <;> simp only [next, Talk.next] at hnext <;> grind
    subst hline
    exact talk_of hnext (h.2 _ _ rfl)

theorem Customer.proper_choose (c : Customer) (r : Nat) : (c.choose r).Proper := by
  unfold choose
  split
  · rename_i k hk
    exact ⟨rfl, Visit.proper_interaction hk _⟩
  · trivial

theorem Senator.proper_choose (c : Senator) (r : Nat) : (Loc.senator (c.choose r)).Proper := by
  unfold choose
  split
  · rename_i k hk
    split at hk
    · cases hk
    · exact Visit.proper_interaction hk _
  · trivial

/-- **A step leads to a place that goes with it.** -/
theorem Loc.proper_next {n : Nat} {p : Loc} {a : Int} {r : Nat} (h : p.Proper) :
    (p.next n a r).Proper := by
  cases p with
  | customer c =>
    obtain ⟨me, past, pc⟩ := c
    cases pc with
    | checkIn p | draw p | checkOut p =>
      simp only [next, Customer.next]
      split <;> trivial
    | check p =>
      simp only [next, Customer.next]
      split
      · trivial
      · exact Customer.proper_choose _ r
    | visit v =>
      simp only [next, Customer.next]
      split
      · rename_i pc hpc
        exact ⟨h.1, Visit.proper_next h.2 hpc⟩
      · exact ⟨fun _ => h.1, h.2.1⟩
      · trivial
    | recheck k bribe myLine p =>
      simp only [next, Customer.next]
      split
      · rename_i q hq
        refine ⟨fun hq' => ?_, h.2⟩
        have hp : p = .acquire ∨ p = .getWaitOutSide := by
          cases p with
          | acquire => exact .inl rfl
          | getWaitOutSide => exact .inr rfl
          | goOutside b | joinLine b | goInside b | leaveLine b =>
            cases b <;> cases hq <;> rcases hq' with h | h | h <;> cases h
          | _ => cases hq <;> rcases hq' with h | h | h <;> cases h
        rcases hp with rfl | rfl
        · exact Bool.and_eq_true_iff.mpr ⟨h.1 (.inl rfl), rfl⟩
        · exact Bool.and_eq_true_iff.mpr ⟨h.1 (.inr (.inl rfl)), rfl⟩
      · rename_i hq
        unfold Customer.rechecked
        split
        · trivial
        · rename_i hnot
          have hp : p = .release false := by
            cases p with
            | release present => cases present with
              | false => rfl
              | true => exact absurd rfl hnot
            | getWaitOutSide =>
              simp only [Check.next] at hq
              split at hq <;> cases hq
            | _ => cases hq
          subst hp
          refine ⟨h.1 (.inr (.inr rfl)), fun hk => ?_, ?_⟩
          · have hdone := h.2 hk
            cases bribe <;> exact hdone
          · rintro i q ⟨⟩
    | exited => trivial
  | senator c =>
    obtain ⟨me, pc⟩ := c
    cases pc with
    | draw p | leave p =>
      simp only [next, Senator.next]
      split <;> trivial
    | arrive p =>
      simp only [next, Senator.next]
      split
      · trivial
      · exact Senator.proper_choose _ r
    | visit v =>
      simp only [next, Senator.next]
      split
      · rename_i pc hpc
        exact Visit.proper_next h hpc
      · exact Senator.proper_choose _ r
      · exact Senator.proper_choose _ r
    | exited => trivial
  | clerk c =>
    obtain ⟨k, myLine, money, fromLine, SSN, pc⟩ := c
    cases pc with
    | draw p => cases p <;> rintro q ⟨⟩
    | senator p => cases p with
      | release waiting => cases waiting <;> rintro q ⟨⟩
      | _ => rintro q ⟨⟩
    | call p => cases p with
      | onBreak p => cases p with
        | releaseEnd => rintro q ⟨⟩
        | _ =>
          simp only [next, Clerk.next, Clerk.nextCall]
          split <;> rintro q ⟨⟩
      | getBribeLineCount | getLineCount =>
        simp only [next, Clerk.next, Clerk.nextCall]
        split <;> rintro q ⟨⟩
      | releaseLine =>
        rintro q ⟨⟩
        rfl
      | _ => rintro q ⟨⟩
    | serve p =>
      simp only [next, Clerk.next]
      split
      · rename_i q hq
        have hof := Clerk.nextServe_of hq (h p rfl)
        split <;> (rintro q' ⟨⟩; exact hof)
      · rintro q ⟨⟩
    | exited => rintro q ⟨⟩
  | manager pc => trivial
  | stopPass done => trivial

/-! ### Whose requests are about a counter -/

/-- The request is about the counter `i`: its lock, its condition variable, the state of the
clerk, or what the two share. -/
def Concerns (k : Kind) (i : Int) : Request → Prop
  | .Acquire l | .Release l | .Wait _ l => l = .clerkLock k i
  | .Signal c _ | .Broadcast c _ => c = .clerkCV k i
  | .Set x j _ =>
    (x = .clerkState k ∨ x = .sharedDataSSN k ∨ (x = .sharedDataPicture ∧ k = .picture)) ∧ j = i
  | _ => False

theorem concerns_acquireClerkLock {k k' : Kind} {i j : Int}
    (h : Concerns k i (acquireClerkLock k' j)) : k' = k ∧ j = i := by
  unfold acquireClerkLock at h
  split at h
  · cases h
    exact ⟨rfl, rfl⟩
  · exact h.elim

theorem Bump.not_concerns {b : Bump} {x : MV} {j d : Int} {k : Kind} {i : Int}
    (hx : ∃ m, x.guard = some m) : ¬ Concerns k i (b.request x j d) := by
  obtain ⟨m, hm⟩ := hx
  cases b with
  | get => exact id
  | set temp =>
    rintro ⟨rfl | rfl | ⟨rfl, -⟩, -⟩ <;> cases hm

theorem Visit.concerned {v : Visit} {me : Person} {SSN : Int} {k : Kind} {i : Int}
    (hv : v.Proper me) (h : Concerns k i (v.request SSN)) :
    v.kind = k ∧ ((∃ q, v.pc = .talk i q) ∨ v.pc = .unlocked i .setBusy) := by
  obtain ⟨k', bribe, pc⟩ := v
  cases pc with
  | line p => cases p with
    | join myLine b | leave myLine b =>
      exact absurd h (Bump.not_concerns (by cases bribe <;> exact ⟨_, rfl⟩))
    | acquire | wait myLine | release myLine => cases h
    | _ => exact h.elim
  | unlocked myLine p => cases p with
    | setBusy =>
      obtain ⟨h | h | ⟨h, -⟩, rfl⟩ := h <;> cases h
      exact ⟨rfl, .inr rfl⟩
    | release => cases h
  | talk myLine q => cases q with
    | acquire =>
      obtain ⟨rfl, rfl⟩ := concerns_acquireClerkLock h
      exact ⟨rfl, .inl ⟨_, rfl⟩⟩
    | setBusy | setSSN =>
      obtain ⟨h | h | ⟨h, -⟩, rfl⟩ := h <;> cases h
      exact ⟨rfl, .inl ⟨_, rfl⟩⟩
    | setPicture liked =>
      obtain ⟨h | h | ⟨h, rfl⟩, rfl⟩ := h <;> cases h
      exact ⟨of_decide_eq_true (hv.2 _ _ rfl), .inl ⟨_, rfl⟩⟩
    | releaseLine => cases h
    | getPicture | getPunishment | getRejection => exact h.elim
    | _ =>
      cases h
      exact ⟨rfl, .inl ⟨_, rfl⟩⟩

/-- **Only the clerk and its visitors ask for it**, and who has not been called. -/
theorem Loc.concerned {p : Loc} {k : Kind} {i : Int} (hp : p.Proper)
    (h : Concerns k i p.request) :
    p.line k = some i ∨ (∃ q, p.talk k i = some q) ∨ p.unlocked = some (k, i) := by
  have hvisit : ∀ {v : Visit} {me : Person} {SSN : Int}, p.visit = some v → v.Proper me →
      Concerns k i (v.request SSN) →
      p.line k = some i ∨ (∃ q, p.talk k i = some q) ∨ p.unlocked = some (k, i) := by
    rintro ⟨k', bribe, pc⟩ me SSN hv hproper hreq
    obtain ⟨rfl, ⟨q, rfl⟩ | rfl⟩ := Visit.concerned hproper hreq
    · exact .inr (.inl ⟨q, talk_iff.mpr ⟨bribe, hv⟩⟩)
    · exact .inr (.inr (by rw [unlocked, hv]))
  cases p with
  | customer c =>
    obtain ⟨me, past, pc⟩ := c
    cases pc with
    | visit v => exact hvisit rfl hp.2 h
    | checkIn p => cases p with
      | present b => exact absurd h (Bump.not_concerns ⟨_, rfl⟩)
      | _ => cases h
    | draw p => cases p with
      | set => obtain ⟨h | h | ⟨h, -⟩, -⟩ := h <;> cases h
      | get => exact h.elim
      | _ => cases h
    | check p | recheck _ _ _ p => cases p with
      | goOutside b | joinLine b | goInside b | leaveLine b =>
        exact absurd h (Bump.not_concerns ⟨_, rfl⟩)
      | getWaitOutSide => exact h.elim
      | _ => cases h
    | checkOut p => cases p with
      | present b | checkedOut b => exact absurd h (Bump.not_concerns ⟨_, rfl⟩)
      | _ => cases h
    | exited => exact h.elim
  | senator c =>
    obtain ⟨me, pc⟩ := c
    cases pc with
    | visit v => exact hvisit rfl hp h
    | draw p => cases p with
      | set => obtain ⟨h | h | ⟨h, -⟩, -⟩ := h <;> cases h
      | get => exact h.elim
      | _ => cases h
    | arrive p => cases p with
      | joinLine b | leaveLine b | enter b => exact absurd h (Bump.not_concerns ⟨_, rfl⟩)
      | getSafe => exact h.elim
      | _ => cases h
    | leave p => cases p with
      | present b | checkedOut b => exact absurd h (Bump.not_concerns ⟨_, rfl⟩)
      | _ => cases h
    | exited => exact h.elim
  | clerk c =>
    obtain ⟨k', myLine, money, fromLine, SSN, pc⟩ := c
    have hclerk : k' = k → myLine = i → (Clerk.mk k' myLine money fromLine SSN pc).line = some myLine →
        (Loc.clerk ⟨k', myLine, money, fromLine, SSN, pc⟩).line k = some i := by
      rintro rfl rfl hline
      exact (if_pos rfl).trans hline
    refine .inl ?_
    cases pc with
    | draw p => cases p with
      | set => obtain ⟨h | h | ⟨h, -⟩, -⟩ := h <;> cases h
      | get => exact h.elim
      | _ => cases h
    | senator p => cases p <;> first | exact h.elim | cases h
    | call p => cases p with
      | acquireClerk =>
        obtain ⟨rfl, rfl⟩ := concerns_acquireClerkLock h
        exact hclerk rfl rfl rfl
      | setSignaled =>
        obtain ⟨h | h | ⟨h, -⟩, rfl⟩ := h <;> cases h
        exact hclerk rfl rfl rfl
      | onBreak p => cases p with
        | setOnBreak | setBusy | setEnd =>
          obtain ⟨h | h | ⟨h, -⟩, rfl⟩ := h <;> cases h
          exact hclerk rfl rfl rfl
        | wait | releaseEnd => cases h
        | _ => exact h.elim
      | getBribeLineCount | getLineCount => exact h.elim
      | _ => cases h
    | serve p => cases p with
      | wait | waitAnswer | waitMoney | signalShow | signalCertified | signal | release =>
        cases h
        exact hclerk rfl rfl rfl
      | resetPicture =>
        obtain ⟨h | h | ⟨-, rfl⟩, rfl⟩ := h
        · cases h
        · cases h
        · exact hclerk (of_decide_eq_true (hp _ rfl)) rfl rfl
      | setPictureCompletion | setPunishment v | setPassportCompletion | setRejection v | setDone
      | setApplicationCompletion => obtain ⟨h | h | ⟨h, -⟩, -⟩ := h <;> cases h
      | _ => exact h.elim
    | exited => exact h.elim
  | manager pc =>
    cases pc with
    | exited => exact h.elim
    | senators p =>
      cases p <;> first | exact h.elim | (obtain ⟨h | h | ⟨h, -⟩, -⟩ := h <;> cases h)
    | lines _ p => cases p <;> first | exact h.elim | cases h
    | wakeUp _ p => cases p <;> first | exact h.elim | cases h
    | endOfDay p =>
      cases p <;> first | exact h.elim | (obtain ⟨h | h | ⟨h, -⟩, -⟩ := h <;> cases h)
    | wakeAll _ p => cases p <;> first | exact h.elim | cases h
  | stopPass done =>
    cases done
    · obtain ⟨h | h | ⟨h, -⟩, -⟩ := h <;> cases h
    · exact h.elim

theorem Loc.talk_of {p : Loc} {k : Kind} {i : Int} {q : Talk} (hp : p.Proper)
    (h : p.talk k i = some q) : q.of k = true := by
  obtain ⟨bribe, hv⟩ := talk_iff.mp h
  rcases visit_cases hv with ⟨me, past, rfl⟩ | ⟨me, rfl⟩
  · exact hp.2.2 _ _ rfl
  · exact hp.2 _ _ rfl

/-- A visitor is no clerk. -/
theorem Loc.line_of_talk {p : Loc} {k k' : Kind} {i : Int} {q : Talk} (h : p.talk k i = some q) :
    p.line k' = none := by
  obtain ⟨bribe, hv⟩ := talk_iff.mp h
  rcases visit_cases hv with ⟨me, past, rfl⟩ | ⟨me, rfl⟩ <;> rfl

/-- The clerk of a counter. -/
theorem Loc.line_clerk {p : Loc} {k : Kind} {i : Int} (h : p.line k = some i) :
    ∃ c, p = .clerk c ∧ c.kind = k ∧ c.myLine = i ∧ c.line = some i := by
  cases p with
  | clerk c =>
    have hline : (if c.kind = k then c.line else none) = some i := h
    split at hline
    · rename_i hk
      refine ⟨c, rfl, hk, ?_, hline⟩
      obtain ⟨k', myLine, money, fromLine, SSN, pc⟩ := c
      cases pc with
      | draw p => cases p with
        | release =>
          cases hline
          rfl
        | _ => cases hline
      | _ =>
        cases hline
        rfl
    · cases hline
  | _ => cases h

/-! ### A counter -/

/-- The clerk has called a customer, which has not woken it yet. -/
def Clerk.Called (c : Clerk) (m : Mode Lock CV) : Prop :=
  c.pc = .call .acquireClerk ∨ c.pc = .call .releaseLine ∨
    (c.pc = .serve .wait ∧ m ≠ .queued (.clerkLock c.kind c.myLine))

/-- The clerk is serving. -/
def Clerk.Engaged (c : Clerk) (m : Mode Lock CV) : Prop :=
  ∃ p, c.pc = .serve p ∧ p ≠ .setApplicationCompletion ∧
    (p = .wait → m = .queued (.clerkLock c.kind c.myLine))

/-- **One customer at a counter**, at a place that goes with the clerk's, and one ticket to it. -/
structure AtCounter {T : Type} (s : State T) (k : Kind) (i : Int) : Prop where
  one : ∀ u v q q', (s.loc u).talk k i = some q → (s.loc v).talk k i = some q' → u = v
  attended : ∀ u q, (s.loc u).talk k i = some q → ∃ t, (s.loc t).line k = some i
  fits : ∀ t c u q, s.loc t = .clerk c → (s.loc t).line k = some i →
    (s.loc u).talk k i = some q →
    Fits k i s.val (s.owner (.clerkLock k i) = none) c (s.mode t) (s.loc u).SSN q (s.mode u)
  signaled : Signaled s.val k i →
    ∃ t c, s.loc t = .clerk c ∧ (s.loc t).line k = some i ∧ c.Called (s.mode t)
  alone : Signaled s.val k i → ∀ u q, (s.loc u).talk k i = some q →
    q = .setBusy ∨ ∃ t c, s.loc t = .clerk c ∧ (s.loc t).line k = some i ∧
      c.pc = .call .acquireClerk
  engaged : ∀ t c, s.loc t = .clerk c → (s.loc t).line k = some i → c.Engaged (s.mode t) →
    ∃ u q, (s.loc u).talk k i = some q

section AtCounter

variable {T : Type} [DecidableEq T] {s s' : State T} {k : Kind} {i : Int} {t : T}

/-- A process that has nothing to do with a counter. -/
def Loc.Stranger (k : Kind) (i : Int) (p : Loc) : Prop :=
  p.line k ≠ some i ∧ ∀ q, p.talk k i ≠ some q

/-- **What strangers do leaves a counter as it is.** -/
theorem AtCounter.frame (h : AtCounter s k i) (hproper : ∀ t, (s.loc t).Proper)
    (hbefore : (s.loc t).Stranger k i) (hafter : (s'.loc t).Stranger k i)
    (hloc : ∀ u, u ≠ t → s'.loc u = s.loc u)
    (hvisitor : ∀ u q, (s.loc u).talk k i = some q → s'.mode u = s.mode u)
    (hclerk : ∀ u c, s.loc u = .clerk c → (s.loc u).line k = some i →
      s'.mode u = s.mode u ∨ c.pc = .call (.onBreak .wait))
    (hstate : MV.get s'.val (.clerkState k) i = MV.get s.val (.clerkState k) i)
    (hSSN : sharedSSN s'.val k i = sharedSSN s.val k i)
    (hpicture : k = .picture → sharedPicture s'.val i = sharedPicture s.val i)
    (howner : s'.owner (.clerkLock k i) = s.owner (.clerkLock k i)) : AtCounter s' k i := by
  have htalk : ∀ u q, (s'.loc u).talk k i = some q → s'.loc u = s.loc u := fun u q hu => by
    by_cases hut : u = t
    · subst hut
      exact absurd hu (hafter.2 q)
    · exact hloc u hut
  have hline : ∀ u, (s'.loc u).line k = some i → s'.loc u = s.loc u := fun u hu => by
    by_cases hut : u = t
    · subst hut
      exact absurd hu hafter.1
    · exact hloc u hut
  have hkept : ∀ u, (s.loc u).line k = some i → s'.loc u = s.loc u := fun u hu => by
    by_cases hut : u = t
    · subst hut
      exact absurd hu hbefore.1
    · exact hloc u hut
  have hstays : ∀ u q, (s.loc u).talk k i = some q → s'.loc u = s.loc u := fun u q hu => by
    by_cases hut : u = t
    · subst hut
      exact absurd hu (hbefore.2 q)
    · exact hloc u hut
  have hsignaled : Signaled s'.val k i ↔ Signaled s.val k i := by
    unfold Signaled
    rw [hstate]
  refine ⟨?_, ?_, ?_, ?_, ?_, ?_⟩
  · intro u v q q' hu hv
    have hu' := htalk u q hu
    have hv' := htalk v q' hv
    rw [hu'] at hu
    rw [hv'] at hv
    exact h.one u v q q' hu hv
  · intro u q hu
    rw [htalk u q hu] at hu
    obtain ⟨t', ht'⟩ := h.attended u q hu
    exact ⟨t', by rw [hkept t' ht']; exact ht'⟩
  · intro t' c u q hc hline' hu
    have heq := htalk u q hu
    rw [heq] at hu ⊢
    rw [hline t' hline'] at hc hline'
    obtain ⟨c', hc', hkind, -⟩ := Loc.line_clerk hline'
    cases hc.symm.trans hc'
    have hof := hproper t'
    rw [hc] at hof
    rw [hvisitor u q hu]
    refine (h.fits t' c u q hc hline' hu).congr (fun p hp => by rw [← hkind]; exact hof p hp)
      (Loc.talk_of (hproper u) hu) hsignaled.mpr hSSN hpicture (fun hfree => howner.trans hfree) ?_
    rcases hclerk t' c hc hline' with hsame | hpc
    · exact .inl hsame
    · exact .inr (by rw [hpc]; rfl)
  · intro hs'
    obtain ⟨t', c, hc, hline', hcalled⟩ := h.signaled (hsignaled.mp hs')
    have heq := hkept t' hline'
    refine ⟨t', c, heq.trans hc, by rw [heq]; exact hline', ?_⟩
    rcases hclerk t' c hc hline' with hsame | hpc
    · rw [hsame]
      exact hcalled
    · exfalso
      rcases hcalled with hcalled | hcalled | ⟨hcalled, -⟩ <;> cases hpc.symm.trans hcalled
  · intro hs' u q hu
    rw [htalk u q hu] at hu
    rcases h.alone (hsignaled.mp hs') u q hu with hq | ⟨t', c, hc, hline', hpc⟩
    · exact .inl hq
    · have heq := hkept t' hline'
      exact .inr ⟨t', c, heq.trans hc, by rw [heq]; exact hline', hpc⟩
  · intro t' c hc hline' hengaged
    rw [hline t' hline'] at hc hline'
    have hengaged' : c.Engaged (s.mode t') := by
      rcases hclerk t' c hc hline' with hsame | hpc
      · rw [← hsame]
        exact hengaged
      · obtain ⟨p, hp, -⟩ := hengaged
        cases hpc.symm.trans hp
    obtain ⟨u, q, hu⟩ := h.engaged t' c hc hline' hengaged'
    exact ⟨u, q, by rw [hstays u q hu]; exact hu⟩

/-- **What the clerk of a counter has to see to.** -/
theorem AtCounter.clerk_moved (h : AtCounter s k i) {c c' : Clerk}
    (hunique : ∀ u, (s.loc u).line k = some i → u = t) (hc : s.loc t = .clerk c)
    (hc' : s'.loc t = .clerk c') (hline' : (s'.loc t).line k = some i)
    (hloc : ∀ u, u ≠ t → s'.loc u = s.loc u)
    (hfits : ∀ u q, (s.loc u).talk k i = some q → Fits k i s'.val
      (s'.owner (.clerkLock k i) = none) c' (s'.mode t) (s.loc u).SSN q (s'.mode u))
    (hsignaled : Signaled s'.val k i → c'.Called (s'.mode t))
    (halone : Signaled s'.val k i → ∀ u q, (s.loc u).talk k i = some q →
      q = .setBusy ∨ c'.pc = .call .acquireClerk)
    (hengaged : c'.Engaged (s'.mode t) → ∃ u q, (s.loc u).talk k i = some q) :
    AtCounter s' k i := by
  have htalk : ∀ u q, (s'.loc u).talk k i = some q → u ≠ t := by
    rintro u q hu rfl
    rw [hc'] at hu
    cases hu
  have hstays : ∀ u q, (s.loc u).talk k i = some q → s'.loc u = s.loc u := fun u q hu => by
    refine hloc u ?_
    rintro rfl
    rw [hc] at hu
    cases hu
  have hunique' : ∀ u, (s'.loc u).line k = some i → u = t := fun u hu => by
    by_contra hut
    rw [hloc u hut] at hu
    exact hut (hunique u hu)
  refine ⟨?_, ?_, ?_, ?_, ?_, ?_⟩
  · intro u v q q' hu hv
    rw [hloc u (htalk u q hu)] at hu
    rw [hloc v (htalk v q' hv)] at hv
    exact h.one u v q q' hu hv
  · exact fun u q hu => ⟨t, hline'⟩
  · intro t' d u q hd hline hu
    obtain rfl := hunique' t' hline
    cases hc'.symm.trans hd
    have heq := hloc u (htalk u q hu)
    rw [heq] at hu ⊢
    exact hfits u q hu
  · exact fun hs' => ⟨t, c', hc', hline', hsignaled hs'⟩
  · intro hs' u q hu
    rw [hloc u (htalk u q hu)] at hu
    exact (halone hs' u q hu).imp_right fun hpc => ⟨t, c', hc', hline', hpc⟩
  · intro t' d hd hline hd'
    obtain rfl := hunique' t' hline
    cases hc'.symm.trans hd
    obtain ⟨u, q, hu⟩ := hengaged hd'
    exact ⟨u, q, by rw [hstays u q hu]; exact hu⟩

/-- **What a visitor of a counter has to see to.** -/
theorem AtCounter.visitor_moved (h : AtCounter s k i) {q : Talk}
    (hq : (s.loc t).talk k i = some q) (hline' : (s'.loc t).line k ≠ some i)
    (hloc : ∀ u, u ≠ t → s'.loc u = s.loc u)
    (hfits : ∀ v c q', s.loc v = .clerk c → (s.loc v).line k = some i →
      (s'.loc t).talk k i = some q' → Fits k i s'.val (s'.owner (.clerkLock k i) = none) c
        (s'.mode v) (s'.loc t).SSN q' (s'.mode t))
    (hsignaled : Signaled s'.val k i → Signaled s.val k i)
    (hcalled : Signaled s'.val k i → ∀ v c, s.loc v = .clerk c → (s.loc v).line k = some i →
      c.Called (s.mode v) → c.Called (s'.mode v))
    (hbusy : Signaled s'.val k i → ∀ q', (s'.loc t).talk k i = some q' → q = .setBusy →
      q' = .setBusy)
    (hengaged : ∀ v c, s.loc v = .clerk c → (s.loc v).line k = some i →
      c.Engaged (s'.mode v) → ∃ q', (s'.loc t).talk k i = some q') : AtCounter s' k i := by
  have hnotline : (s.loc t).line k ≠ some i := by
    rw [Loc.line_of_talk hq]
    rintro ⟨⟩
  have honly : ∀ u q', (s'.loc u).talk k i = some q' → u = t := fun u q' hu => by
    by_contra hut
    rw [hloc u hut] at hu
    exact hut (h.one u t q' q hu hq)
  have hclerk : ∀ v, (s'.loc v).line k = some i → s'.loc v = s.loc v := fun v hv => by
    refine hloc v ?_
    rintro rfl
    exact hline' hv
  have hkept : ∀ v, (s.loc v).line k = some i → s'.loc v = s.loc v := fun v hv => by
    refine hloc v ?_
    rintro rfl
    exact hnotline hv
  refine ⟨?_, ?_, ?_, ?_, ?_, ?_⟩
  · intro u v q₁ q₂ hu hv
    exact (honly u q₁ hu).trans (honly v q₂ hv).symm
  · intro u q' hu
    obtain ⟨v, hv⟩ := h.attended t q hq
    exact ⟨v, by rw [hkept v hv]; exact hv⟩
  · intro v c u q' hc hline hu
    obtain rfl := honly u q' hu
    rw [hclerk v hline] at hc hline
    exact hfits v c q' hc hline hu
  · intro hs'
    obtain ⟨v, c, hc, hline, hwas⟩ := h.signaled (hsignaled hs')
    have heq := hkept v hline
    exact ⟨v, c, heq.trans hc, by rw [heq]; exact hline, hcalled hs' v c hc hline hwas⟩
  · intro hs' u q' hu
    obtain rfl := honly u q' hu
    rcases h.alone (hsignaled hs') u q hq with hset | ⟨v, c, hc, hline, hpc⟩
    · exact .inl (hbusy hs' q' hu hset)
    · have heq := hkept v hline
      exact .inr ⟨v, c, heq.trans hc, by rw [heq]; exact hline, hpc⟩
  · intro v c hc hline hnow
    rw [hclerk v hline] at hc hline
    obtain ⟨q', hq'⟩ := hengaged v c hc hline hnow
    exact ⟨t, q', hq'⟩

end AtCounter

/-! ### What holds all day -/

/-- Woken in the line of a clerk, and on its way to look whether it was called. -/
def Loc.Pending (k : Kind) (i : Int) (p : Loc) (m : Mode Lock CV) : Prop :=
  ∃ bribe, (p.visit = some ⟨k, bribe, .line (.wait i)⟩ ∧ m = .queued (.lineLock k)) ∨
    (∃ b, p.visit = some ⟨k, bribe, .line (.leave i b)⟩) ∨
      p.visit = some ⟨k, bribe, .line (.look i)⟩

/-- The passport was certified. -/
abbrev Certified (val : MV → Int → Int) (SSN : Int) : Prop :=
  MV.passportCompletion.get val SSN ≠ 0

/-- The application or the picture was not there. -/
abbrev Punished (val : MV → Int → Int) (SSN : Int) : Prop := MV.passportPunishment.get val SSN = 1

/-- The local variables of a customer or a senator. -/
def Loc.person : Loc → Option Person
  | .customer c => some c.me
  | .senator c => some c.me
  | _ => none

/-- The line of a visit, where it has chosen one. -/
def Line.chosen : Line → Option Int
  | .join myLine _ | .wait myLine | .leave myLine _ | .look myLine | .release myLine => some myLine
  | _ => none

/-- A customer that was woken in line and not called, before it has seen the flag. -/
def Customer.Turned (c : Customer) : Prop :=
  (∃ k bribe i, c.pc = .visit ⟨k, bribe, .line (.release i)⟩) ∨
    ∃ k bribe i p, c.pc = .recheck k bribe i p ∧ (p = .acquire ∨ p = .getWaitOutSide)

/-- **What holds all day** of the visits, while the numbers are smaller than the arrays. -/
structure Office.Served {T : Type} [DecidableEq T] (o : Office T) (s : State T) : Prop where
  proper : ∀ t, (s.loc t).Proper
  numbers : Drawn .SSNCount Loc.SSN s
  lines : ∀ k, Drawn (.myLine k) (Loc.line k) s
  states : ∀ k (i : Int), 0 ≤ i ∧ i < MAXCLERKS → MV.get s.val (.clerkState k) i ≠ AVAILABLE
  chosen : ∀ t k bribe p (i : Int), (s.loc t).visit = some ⟨k, bribe, .line p⟩ → p.chosen = some i →
    0 ≤ i ∧ i < MAXCLERKS
  counter : ∀ k (i : Int), 0 ≤ i ∧ i < MAXCLERKS → AtCounter s k i
  locked : ∀ t k bribe i p, (s.loc t).visit ≠ some ⟨k, bribe, .unlocked i p⟩
  turned : ∀ t c, s.loc t = .customer c → c.Turned → flag s.val ≠ 0
  outside : ∀ t c k bribe i, s.loc t = .customer c → c.pc ≠ .recheck k bribe i (.release false)
  ranged : ∀ t c, s.loc t = .clerk c → c.pc = .call .releaseLine ∨ (∃ p, c.pc = .serve p) →
    0 ≤ c.myLine ∧ c.myLine < MAXCLERKS
  seated : ∀ t k (i : Int) q, (s.loc t).talk k i = some q →
    q ≠ .setBusy ∧ q ≠ .releaseLine ∧ q ≠ .acquire → 0 ≤ i ∧ i < MAXCLERKS
  pending_one : flag s.val = 0 → ∀ k (i : Int), 0 ≤ i ∧ i < MAXCLERKS → ∀ u v,
    (s.loc u).Pending k i (s.mode u) ∨ (s.loc u).talk k i = some .setBusy →
    (s.loc v).Pending k i (s.mode v) ∨ (s.loc v).talk k i = some .setBusy → u = v
  pending : flag s.val = 0 → ∀ k i u, (s.loc u).Pending k i (s.mode u) →
    Signaled s.val k i ∨ ∃ t c, s.loc t = .clerk c ∧ (s.loc t).line k = some i ∧
      c.pc = .call .setSignaled
  fresh : ∀ t me, (s.loc t).person = some me → (s.loc t).SSN = none → me.done .passport = false
  rejections : ∀ n, MV.cashierRejection.get s.val n = 0
  issued : ∀ t me n, (s.loc t).person = some me → (s.loc t).SSN = some n →
    me.done .passport = true ∨ (∃ i, (s.loc t).talk .passport i = some (.release true)) →
    Certified s.val n
  judged : ∀ t n (i : Int), (s.loc t).SSN = some n → 0 ≤ i ∧ i < MAXCLERKS →
    ((s.loc t).talk .passport i = some .wait ∧ s.mode t = .queued (.clerkLock .passport i)) ∨
      (s.loc t).talk .passport i = some .getPunishment →
    Punished s.val n ∨ Certified s.val n
  judging : ∀ t c (i : Int), s.loc t = .clerk c → (s.loc t).line .passport = some i →
    0 ≤ i ∧ i < MAXCLERKS → c.pc = .serve .signal →
    Punished s.val c.customerSSN ∨ Certified s.val c.customerSSN

/-! ### The counters, through every piece of the server's work -/

section Counters

variable {T : Type} [DecidableEq T] [Fintype T] {o : Office T} {s s' : State T} {k : Kind}
  {i : Int} {t : T}

theorem Office.Served.not_unlocked (hx : o.Served s) (t : T) {kj : Kind × Int} :
    (s.loc t).unlocked ≠ some kj := by
  unfold Loc.unlocked
  split
  · rename_i k bribe j hv
    exact absurd hv (hx.locked t k bribe j _)
  · rintro ⟨⟩

/-- A stranger asks for nothing that has to do with the counter. -/
theorem Office.Served.stranger (hx : o.Served s) (ht : (s.loc t).Stranger k i) :
    ¬ Concerns k i (s.loc t).request := by
  intro hreq
  rcases Loc.concerned (hx.proper t) hreq with hline | ⟨q, hq⟩ | hunlocked
  · exact ht.1 hline
  · exact ht.2 q hq
  · exact hx.not_unlocked t hunlocked

/-- The clerk of a counter, and its program. -/
theorem Office.Served.clerk_of (hx : o.Served s) (ht : (s.loc t).line k = some i) :
    ∃ c, s.loc t = .clerk c ∧ c.kind = k ∧ c.myLine = i ∧ c.line = some i ∧
      ∀ p, c.pc = .serve p → p.of k = true := by
  obtain ⟨c, hc, hk, hi, hline⟩ := Loc.line_clerk ht
  have hproper := hx.proper t
  rw [hc] at hproper
  exact ⟨c, hc, hk, hi, hline, fun p hp => hk ▸ hproper p hp⟩

/-- Who has read the last answer runs. -/
theorem Office.Sound.reading (hs : o.Sound s) {u : T} {q : Talk}
    (hu : (s.loc u).talk k i = some q)
    (hq : q ≠ .acquire ∧ q ≠ .wait ∧ q ≠ .waitPicture ∧ q ≠ .waitPassport) :
    s.mode u = .running := by
  obtain ⟨bribe, hv⟩ := Loc.talk_iff.mp hu
  obtain ⟨number, -, hreq, -⟩ := Loc.visit_SSN hv
  refine hs.locked.running (fun l => ?_) fun c l => ?_
  · show (s.loc u).request ≠ _
    rw [hreq]
    cases q <;> simp_all [Visit.request]
  · show (s.loc u).request ≠ _
    rw [hreq]
    cases q <;> simp_all [Visit.request]

end Counters

end Nachos.Passport

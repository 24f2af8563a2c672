import Nachos.Passport.Desks

/-!
# The passport office: who is called, and who is turned away

A customer that was woken in line is called, or it was woken by the manager while the flag for
those outside is up. The flag is taken back when nobody is past its check. So nobody finds itself
neither called nor sent outside, and the path that goes on to the counter from there is not
taken.
-/

namespace Nachos.Passport

open Lib Lib.Monitor

set_option linter.unusedSectionVars false

/-! ### How a process gets to these places -/

section Next

variable {n : Nat} {a : Int} {r : Nat}

/-- The way to a counter past the line lock starts where the flag was down. -/
theorem Loc.unlocked_next {p : Loc} {k : Kind} {bribe : Bool} {i : Int} {q : Unlocked}
    (h : (p.next n a r).visit = some ⟨k, bribe, .unlocked i q⟩) :
    (∃ q', p.visit = some ⟨k, bribe, .unlocked i q'⟩) ∨
      ∃ c, p = .customer c ∧ c.pc = .recheck k bribe i (.release false) := by
  have hstep : ∀ {v : Visit} {pc}, v.next n a r = .at pc →
      ({ v with pc := pc } : Visit) = ⟨k, bribe, .unlocked i q⟩ →
      ∃ q', v = ⟨k, bribe, .unlocked i q'⟩ := by
    rintro ⟨k', bribe', pc⟩ pc' hnext heq
    cases heq
    cases pc with
    | line p => cases p with
      | join myLine b | leave myLine b => cases b <;> cases hnext
      | getState _ _ _ _ | getMyState _ | look _ =>
        simp only [Visit.next, Visit.Line.next] at hnext
        split at hnext <;> cases hnext
      | _ => cases hnext
    | unlocked myLine p =>
      cases p <;> cases hnext
      exact ⟨_, rfl⟩
    | talk myLine p =>
      exfalso
      cases p <;> simp only [Visit.next, Visit.Talk.next] at hnext <;> grind
  cases p with
  | customer c =>
    obtain ⟨me, past, pc⟩ := c
    cases pc with
    | visit v =>
      simp only [next, Customer.next] at h
      split at h
      · rename_i pc hpc
        injection h with h
        obtain ⟨q', rfl⟩ := hstep hpc h
        exact .inl ⟨q', rfl⟩
      · cases h
      · cases h
    | check p =>
      simp only [next, Customer.next] at h
      split at h
      · cases h
      · cases Customer.visit_choose h
    | recheck k' bribe' myLine p =>
      simp only [next, Customer.next, Customer.rechecked] at h
      split at h
      · cases h
      · rename_i hp
        split at h
        · cases h
        · rename_i hnot
          cases h
          refine .inr ⟨_, rfl, ?_⟩
          cases p with
          | release present => cases present with
            | false => rfl
            | true => exact absurd (decide_eq_true rfl) hnot
          | getWaitOutSide =>
            simp only [Check.next] at hp
            split at hp <;> cases hp
          | _ => cases hp
    | exited => cases h
    | _ =>
      simp only [next, Customer.next] at h
      split at h <;> cases h
  | senator c =>
    obtain ⟨me, pc⟩ := c
    cases pc with
    | visit v =>
      simp only [next, Senator.next] at h
      split at h
      · rename_i pc hpc
        injection h with h
        obtain ⟨q', rfl⟩ := hstep hpc h
        exact .inl ⟨q', rfl⟩
      · cases Senator.visit_choose h
      · cases Senator.visit_choose h
    | arrive p =>
      simp only [next, Senator.next] at h
      split at h
      · cases h
      · cases Senator.visit_choose h
    | exited => cases h
    | _ =>
      simp only [next, Senator.next] at h
      split at h <;> cases h
  | _ => cases h

theorem picked_ne_release {n i : Nat} {myLine lineSize j : Int} :
    Outcome.at (.line (Visit.picked n i myLine lineSize)) ≠ .at (.line (.release j)) := by
  unfold Visit.picked
  split <;> simp

/-- A customer that was not called looks at the flag next. -/
theorem Customer.turned_next {c : Customer} (h : (c.next n a r).Turned) :
    c.Turned ∨ ∃ k bribe i, c.pc = .visit ⟨k, bribe, .line (.look i)⟩ ∧ a ≠ SIGNALEDCUSTOMER := by
  obtain ⟨me, past, pc⟩ := c
  cases pc with
  | visit v =>
    simp only [next] at h
    split at h
    · rename_i pc hpc
      rcases h with ⟨k, bribe, i, h⟩ | ⟨k, bribe, i, p, h, -⟩
      · obtain ⟨k', bribe', pc'⟩ := v
        cases h
        cases pc' with
        | line p => cases p with
          | look myLine =>
            simp only [Visit.next, Visit.Line.next] at hpc
            split at hpc
            · rename_i ha
              cases hpc
              exact .inr ⟨_, _, _, rfl, ha⟩
            · cases hpc
          | join myLine b | leave myLine b => cases b <;> cases hpc
          | acquire => exact absurd hpc picked_ne_release
          | getState _ _ _ _ =>
            simp only [Visit.next, Visit.Line.next] at hpc
            split at hpc <;> exact absurd hpc picked_ne_release
          | getMyState _ =>
            simp only [Visit.next, Visit.Line.next] at hpc
            split at hpc <;> cases hpc
          | _ => cases hpc
        | unlocked myLine p => cases p <;> cases hpc
        | talk myLine p =>
          exfalso
          cases p <;> simp only [Visit.next, Visit.Talk.next] at hpc <;> grind
      · cases h
    · rename_i myLine hpc
      obtain ⟨k', bribe', pc'⟩ := v
      refine .inl (.inl ⟨k', bribe', myLine, ?_⟩)
      cases pc' with
      | line p => cases p with
        | release myLine =>
          cases hpc
          rfl
        | join myLine b | leave myLine b => cases b <;> cases hpc
        | getState _ _ _ _ | getMyState _ | look _ =>
          simp only [Visit.next, Visit.Line.next] at hpc
          split at hpc <;> cases hpc
        | _ => cases hpc
      | unlocked myLine p => cases p <;> cases hpc
      | talk myLine p =>
        exfalso
        cases p <;> simp only [Visit.next, Visit.Talk.next] at hpc <;> grind
    · rcases h with ⟨k, bribe, i, h⟩ | ⟨k, bribe, i, p, h, -⟩ <;> cases h
  | recheck k bribe myLine p =>
    simp only [next] at h
    split at h
    · rename_i q hq
      rcases h with ⟨k', bribe', i, h⟩ | ⟨k', bribe', i, p', h, hp'⟩
      · cases h
      · cases h
        refine .inl (.inr ⟨k, bribe, myLine, p, rfl, ?_⟩)
        cases p with
        | acquire => exact .inl rfl
        | getWaitOutSide =>
          simp only [Check.next] at hq
          split at hq <;> cases hq <;> rcases hp' with h | h <;> cases h
        | goOutside b | joinLine b | goInside b | leaveLine b =>
          cases b <;> cases hq <;> rcases hp' with h | h <;> cases h
        | _ => cases hq <;> rcases hp' with h | h <;> cases h
    · unfold rechecked at h
      split at h <;>
      · rcases h with ⟨k', bribe', i, h⟩ | ⟨k', bribe', i, p', h, -⟩ <;> cases h
  | check p =>
    simp only [next] at h
    split at h
    · rcases h with ⟨k', bribe', i, h⟩ | ⟨k', bribe', i, p', h, -⟩ <;> cases h
    · unfold choose at h
      split at h <;>
      · rcases h with ⟨k', bribe', i, h⟩ | ⟨k', bribe', i, p', h, -⟩ <;> cases h
  | exited => exact .inl h
  | _ =>
    simp only [next] at h
    split at h <;>
    · rcases h with ⟨k', bribe', i, h⟩ | ⟨k', bribe', i, p', h, -⟩ <;> cases h

/-- To release the manager's lock in the line a customer has found the flag down. -/
theorem Customer.outside_next {c : Customer} {k : Kind} {bribe : Bool} {i : Int}
    (h : (c.next n a r).pc = .recheck k bribe i (.release false)) :
    c.pc = .recheck k bribe i .getWaitOutSide ∧ a = 0 := by
  obtain ⟨me, past, pc⟩ := c
  cases pc with
  | visit v =>
    simp only [next] at h
    split at h <;> cases h
  | recheck k' bribe' myLine p =>
    simp only [next] at h
    split at h
    · rename_i q hq
      cases h
      cases p with
      | getWaitOutSide =>
        simp only [Check.next] at hq
        split at hq
        · cases hq
        · rename_i ha
          exact ⟨rfl, not_not.mp ha⟩
      | goOutside b | joinLine b | goInside b | leaveLine b => cases b <;> cases hq
      | _ => cases hq
    · unfold rechecked at h
      split at h <;> cases h
  | check p =>
    simp only [next] at h
    split at h
    · cases h
    · unfold choose at h
      split at h <;> cases h
  | exited => cases h
  | _ =>
    simp only [next] at h
    split at h <;> cases h

/-- The line that a visit has chosen belongs to a clerk that has a state. -/
theorem Loc.chosen_next {p : Loc} {k : Kind} {bribe : Bool} {q : Line} {i : Int}
    (h : (p.next n a r).visit = some ⟨k, bribe, .line q⟩) (hq : q.chosen = some i) :
    ∃ q', p.visit = some ⟨k, bribe, .line q'⟩ ∧
      (q'.chosen = some i ∨ (q' = .getMyState i ∧ a ≠ AVAILABLE)) := by
  rcases visit_next h with ⟨⟨k', bribe', pc⟩, pc', hv, hnext, heq⟩ | hpc | ⟨myLine, hpc⟩
  · cases heq
    cases pc with
    | line p =>
      refine ⟨p, hv, ?_⟩
      cases p with
      | acquire =>
        cases hnext
        unfold Visit.picked at hq
        split at hq <;> cases hq
      | getCount _ _ _ =>
        cases hnext
        cases hq
      | getState _ _ _ _ =>
        simp only [Visit.next, Visit.Line.next] at hnext
        split at hnext <;> cases hnext <;> unfold Visit.picked at hq <;> split at hq <;> cases hq
      | getMyState myLine =>
        simp only [Visit.next, Visit.Line.next] at hnext
        split at hnext
        · rename_i ha
          cases hnext
          cases hq
          exact .inr ⟨rfl, ha⟩
        · cases hnext
      | look myLine =>
        simp only [Visit.next, Visit.Line.next] at hnext
        split at hnext <;> cases hnext
        exact .inl hq
      | join myLine b | leave myLine b => cases b <;> cases hnext <;> exact .inl hq
      | release _ => cases hnext
      | wait _ =>
        cases hnext
        exact .inl hq
    | unlocked myLine p => cases p <;> cases hnext
    | talk myLine p =>
      exfalso
      cases p <;> simp only [Visit.next, Visit.Talk.next] at hnext <;> grind
  · cases hpc
    cases hq
  · cases hpc

/-- A clerk comes to its counter with its own lock. -/
theorem Clerk.ranged_next {c : Clerk}
    (h : (c.next n a r).pc = .call .releaseLine ∨ ∃ p, (c.next n a r).pc = .serve p) :
    (c.pc = .call .acquireClerk ∨ c.pc = .call .releaseLine ∨ ∃ p, c.pc = .serve p) ∧
      (c.next n a r).myLine = c.myLine := by
  obtain ⟨k, myLine, money, fromLine, SSN, pc⟩ := c
  cases pc with
  | draw p => cases p <;> rcases h with h | ⟨p, h⟩ <;> cases h
  | senator p => cases p with
    | release waiting => cases waiting <;> rcases h with h | ⟨p, h⟩ <;> cases h
    | _ => rcases h with h | ⟨p, h⟩ <;> cases h
  | call p => cases p with
    | acquireClerk => exact ⟨.inl rfl, rfl⟩
    | releaseLine => exact ⟨.inr (.inl rfl), rfl⟩
    | onBreak p => cases p with
      | releaseEnd => rcases h with h | ⟨p, h⟩ <;> cases h
      | _ =>
        simp only [next, nextCall] at h
        split at h <;> rcases h with h | ⟨p, h⟩ <;> cases h
    | getBribeLineCount | getLineCount =>
      simp only [next, nextCall] at h
      split at h <;> rcases h with h | ⟨p, h⟩ <;> cases h
    | _ => rcases h with h | ⟨p, h⟩ <;> cases h
  | serve p =>
    refine ⟨.inr (.inr ⟨p, rfl⟩), ?_⟩
    simp only [next]
    split
    · split <;> rfl
    · rfl
  | exited => rcases h with h | ⟨p, h⟩ <;> cases h

/-- On its way to look, a process comes from the line. -/
theorem Loc.leave_next {p : Loc} {k : Kind} {bribe : Bool} {q : Line} {i : Int}
    (h : (p.next n a r).visit = some ⟨k, bribe, .line q⟩)
    (hq : (∃ b, q = .leave i b) ∨ q = .look i) :
    p.visit = some ⟨k, bribe, .line (.wait i)⟩ ∨
      ∃ b, p.visit = some ⟨k, bribe, .line (.leave i b)⟩ := by
  rcases visit_next h with ⟨⟨k', bribe', pc⟩, pc', hv, hnext, heq⟩ | hpc | ⟨myLine, hpc⟩
  · cases heq
    cases pc with
    | line p => cases p with
      | wait myLine =>
        cases hnext
        rcases hq with ⟨b, hq⟩ | hq <;> cases hq
        exact .inl hv
      | leave myLine b =>
        cases b <;> cases hnext <;> rcases hq with ⟨b, hq⟩ | hq <;> cases hq
        · exact .inr ⟨_, hv⟩
        · exact .inr ⟨_, hv⟩
      | join myLine b =>
        cases b <;> cases hnext <;> rcases hq with ⟨b, hq⟩ | hq <;> cases hq
      | acquire =>
        cases hnext
        unfold Visit.picked at hq
        split at hq <;> rcases hq with ⟨b, hq⟩ | hq <;> cases hq
      | getState _ _ _ _ =>
        simp only [Visit.next, Visit.Line.next] at hnext
        split at hnext <;> cases hnext <;> unfold Visit.picked at hq <;> split at hq <;>
          rcases hq with ⟨b, hq⟩ | hq <;> cases hq
      | getMyState _ | look _ =>
        simp only [Visit.next, Visit.Line.next] at hnext
        split at hnext
        · cases hnext
          rcases hq with ⟨b, hq⟩ | hq <;> cases hq
        · cases hnext
      | getCount _ _ _ =>
        cases hnext
        rcases hq with ⟨b, hq⟩ | hq <;> cases hq
      | release _ => cases hnext
    | unlocked myLine p => cases p <;> cases hnext
    | talk myLine p =>
      exfalso
      cases p <;> simp only [Visit.next, Visit.Talk.next] at hnext <;> grind
  · cases hpc
    rcases hq with ⟨b, hq⟩ | hq <;> cases hq
  · cases hpc

/-- **Who wakes somebody in line**: the clerk of the line, or the manager. -/
theorem Loc.wakes_line {p : Loc} {k : Kind} {bribe : Bool} {i : Int} {l : Lock}
    (h : p.request = .Signal (Visit.lineCV k bribe i) l ∨
      p.request = .Broadcast (Visit.lineCV k bribe i) l) :
    (∃ c, p = .clerk c ∧ c.kind = k ∧ c.myLine = i ∧
        (c.pc = .call .signalBribe ∨ c.pc = .call .signalLine) ∧
        p.request = .Signal (Visit.lineCV k bribe i) l) ∨
      ∃ k' q, p = .manager (.lines k' q) := by
  have hvisit : ∀ (w : Visit) SSN, ¬ (w.request SSN = .Signal (Visit.lineCV k bribe i) l ∨
      w.request SSN = .Broadcast (Visit.lineCV k bribe i) l) := by
    intro w SSN hw
    obtain ⟨myLine, q, -, hcv⟩ := w.wakes hw
    cases bribe <;> cases hcv
  cases p with
  | customer c =>
    obtain ⟨me, past, pc⟩ := c
    cases pc with
    | visit w => exact absurd h (hvisit w _)
    | checkIn p => cases p with
      | present b => cases b <;> rcases h with h | h <;> cases h
      | _ => rcases h with h | h <;> cases h
    | draw p => cases p <;> rcases h with h | h <;> cases h
    | check p | recheck _ _ _ p => cases p with
      | goOutside b | joinLine b | goInside b | leaveLine b =>
        cases b <;> rcases h with h | h <;> cases h
      | _ => rcases h with h | h <;> cases h
    | checkOut p => cases p with
      | present b | checkedOut b => cases b <;> rcases h with h | h <;> cases h
      | _ => rcases h with h | h <;> cases h
    | exited => rcases h with h | h <;> cases h
  | senator c =>
    obtain ⟨me, pc⟩ := c
    cases pc with
    | visit w => exact absurd h (hvisit w _)
    | draw p => cases p <;> rcases h with h | h <;> cases h
    | arrive p => cases p with
      | joinLine b | leaveLine b | enter b => cases b <;> rcases h with h | h <;> cases h
      | _ => rcases h with h | h <;> cases h
    | leave p => cases p with
      | present b | checkedOut b => cases b <;> rcases h with h | h <;> cases h
      | _ => rcases h with h | h <;> cases h
    | exited => rcases h with h | h <;> cases h
  | clerk c =>
    obtain ⟨k', myLine, money, fromLine, SSN, pc⟩ := c
    cases pc with
    | draw p => cases p <;> rcases h with h | h <;> cases h
    | senator p => cases p <;> rcases h with h | h <;> cases h
    | call p => cases p with
      | acquireClerk =>
        have hlock : acquireClerkLock k' myLine = .Signal (Visit.lineCV k bribe i) l ∨
          acquireClerkLock k' myLine = .Broadcast (Visit.lineCV k bribe i) l := h
        unfold acquireClerkLock at hlock
        split at hlock <;> rcases hlock with h | h <;> cases h
      | onBreak p => cases p <;> rcases h with h | h <;> cases h
      | signalBribe | signalLine =>
        cases bribe <;> rcases h with h | h <;> cases h
        exact .inl ⟨_, rfl, rfl, rfl, by simp, rfl⟩
      | _ => rcases h with h | h <;> cases h
    | serve p => cases bribe <;> cases p <;> rcases h with h | h <;> cases h
    | exited => rcases h with h | h <;> cases h
  | manager pc =>
    cases pc with
    | lines k' q => exact .inr ⟨k', q, rfl⟩
    | senators p | wakeUp _ p | wakeAll _ p =>
      cases bribe <;> cases p <;> rcases h with h | h <;> cases h
    | endOfDay p => cases p <;> rcases h with h | h <;> cases h
    | exited => rcases h with h | h <;> cases h
  | stopPass done => cases done <;> rcases h with h | h <;> cases h

theorem acquireClerkLock_ne {k : Kind} {i : Int} (h : acquireClerkLock k i ≠ .Exit) :
    0 ≤ i ∧ i < MAXCLERKS := by
  unfold acquireClerkLock at h
  split at h
  · assumption
  · exact absurd rfl h

/-- What a clerk says of itself. -/
theorem Clerk.sets_state {c : Clerk} {k : Kind} {i v : Int}
    (h : c.request = .Set (.clerkState k) i v) :
    (c.pc = .call .setSignaled ∧ v = SIGNALEDCUSTOMER) ∨
      ((∃ p, c.pc = .call (.onBreak p)) ∧ (v = BUSY ∨ v = ONBREAK)) := by
  obtain ⟨k', myLine, money, fromLine, SSN, pc⟩ := c
  cases pc with
  | draw p => cases p <;> cases h
  | senator p => cases p <;> cases h
  | call p => cases p with
    | acquireClerk => exact absurd h not_set_acquireClerkLock
    | setSignaled =>
      cases h
      exact .inl ⟨rfl, rfl⟩
    | onBreak p =>
      refine .inr ⟨⟨p, rfl⟩, ?_⟩
      cases p <;> cases h
      · exact .inr rfl
      · exact .inl rfl
      · exact .inr rfl
    | _ => cases h
  | serve p => cases p <;> cases h
  | exited => cases h

end Next

/-! ### What is kept as a process goes on -/

section Kept

variable {T : Type} [DecidableEq T] [Fintype T] {o : Office T} {s s' : State T} {t : T} {r : Nat}

/-- **Who writes the state of a clerk**: its customer, or itself. -/
theorem Office.Served.sets_state (hx : o.Served s) {k : Kind} {i v : Int}
    (h : (s.loc t).request = .Set (.clerkState k) i v) :
    ((s.loc t).talk k i = some .setBusy ∧ v = BUSY) ∨
      ∃ c, s.loc t = .clerk c ∧ (s.loc t).line k = some i ∧
        ((c.pc = .call .setSignaled ∧ v = SIGNALEDCUSTOMER) ∨
          ((∃ p, c.pc = .call (.onBreak p)) ∧ (v = BUSY ∨ v = ONBREAK))) := by
  have hconcerns : Concerns k i (s.loc t).request := by
    rw [h]
    exact ⟨.inl rfl, rfl⟩
  rcases Loc.concerned (hx.proper t) hconcerns with hline | ⟨q, hq⟩ | hunlocked
  · obtain ⟨c, hc, -⟩ := hx.clerk_of hline
    rw [hc] at h
    exact .inr ⟨c, hc, hline, Clerk.sets_state h⟩
  · obtain ⟨bribe, hv⟩ := Loc.talk_iff.mp hq
    obtain ⟨number, -, hreq, -⟩ := Loc.visit_SSN hv
    rw [hreq] at h
    cases q with
    | setBusy =>
      cases h
      exact .inl ⟨hq, rfl⟩
    | acquire => exact absurd h not_set_acquireClerkLock
    | _ => cases h
  · exact absurd hunlocked (hx.not_unlocked t)

variable (hs : o.Sound s) (hex : o.Exclusive s) (hx : o.Served s)
  (hloc : s'.loc = Function.update s.loc t
    ((s.loc t).next o.CLERKCOUNT (answered o.CLERKCOUNT (s.loc t).request s.val).1 r))
  (hval : s'.val = (answered o.CLERKCOUNT (s.loc t).request s.val).2)

include hx

include hval in
/-- No clerk is `AVAILABLE`. -/
theorem Office.states_moved (k : Kind) (i : Int) (hi : 0 ≤ i ∧ i < MAXCLERKS) :
    MV.get s'.val (.clerkState k) i ≠ AVAILABLE := by
  rw [hval]
  rcases get_answered_cases o.CLERKCOUNT (s.loc t).request (.clerkState k) s.val i with
    hsame | ⟨v, hset, hv⟩
  · rw [hsame]
    exact hx.states k i hi
  · rw [hv]
    rcases hx.sets_state hset with ⟨-, rfl⟩ | ⟨c, -, -, ⟨-, rfl⟩ | ⟨-, rfl | rfl⟩⟩ <;> decide

include hloc

theorem Office.chosen_moved (u : T) (k : Kind) (bribe : Bool) (p : Line) (i : Int)
    (hu : (s'.loc u).visit = some ⟨k, bribe, .line p⟩) (hp : p.chosen = some i) :
    0 ≤ i ∧ i < MAXCLERKS := by
  by_cases hut : u = t
  · subst hut
    rw [hloc, Function.update_self] at hu
    obtain ⟨q, hv, hq | ⟨rfl, ha⟩⟩ := Loc.chosen_next hu hp
    · exact hx.chosen u k bribe q i hv hq
    · -- a clerk without a state would be `AVAILABLE`
      obtain ⟨number, -, hreq, -⟩ := Loc.visit_SSN hv
      rw [hreq] at ha
      by_contra hrange
      exact ha (if_neg hrange)
  · rw [hloc, Function.update_of_ne hut] at hu
    exact hx.chosen u k bribe p i hu hp

theorem Office.locked_moved (u : T) (k : Kind) (bribe : Bool) (i : Int) (p : Unlocked) :
    (s'.loc u).visit ≠ some ⟨k, bribe, .unlocked i p⟩ := by
  intro hu
  by_cases hut : u = t
  · subst hut
    rw [hloc, Function.update_self] at hu
    rcases Loc.unlocked_next hu with ⟨q, hv⟩ | ⟨c, hc, hpc⟩
    · exact hx.locked u k bribe i q hv
    · exact hx.outside u c k bribe i hc hpc
  · rw [hloc, Function.update_of_ne hut] at hu
    exact hx.locked u k bribe i p hu

theorem Office.outside_moved (u : T) (c : Customer) (k : Kind) (bribe : Bool) (i : Int)
    (hu : s'.loc u = .customer c) : c.pc ≠ .recheck k bribe i (.release false) := by
  intro hpc
  by_cases hut : u = t
  · subst hut
    rw [hloc, Function.update_self] at hu
    cases hp : s.loc u with
    | customer d =>
      rw [hp] at hu
      cases hu
      obtain ⟨hd, ha⟩ := Customer.outside_next hpc
      refine hx.turned u d hp (.inr ⟨k, bribe, i, _, hd, .inr rfl⟩) ?_
      obtain ⟨me, past, pc⟩ := d
      cases hd
      exact ha
    | _ =>
      rw [hp] at hu
      cases hu
  · rw [hloc, Function.update_of_ne hut] at hu
    exact hx.outside u c k bribe i hu hpc

theorem Office.ranged_moved (hlives : (s.loc t).request ≠ .Exit) (u : T) (c : Clerk)
    (hu : s'.loc u = .clerk c) (hpc : c.pc = .call .releaseLine ∨ ∃ p, c.pc = .serve p) :
    0 ≤ c.myLine ∧ c.myLine < MAXCLERKS := by
  by_cases hut : u = t
  · subst hut
    rw [hloc, Function.update_self] at hu
    cases hp : s.loc u with
    | clerk d =>
      rw [hp] at hu hlives
      cases hu
      obtain ⟨hfrom, hline⟩ := Clerk.ranged_next hpc
      rw [hline]
      rcases hfrom with hacq | hserving
      · obtain ⟨k, myLine, money, fromLine, SSN, pc⟩ := d
        cases hacq
        exact acquireClerkLock_ne hlives
      · exact hx.ranged u d hp hserving
    | _ =>
      rw [hp] at hu
      cases hu
  · rw [hloc, Function.update_of_ne hut] at hu
    exact hx.ranged u c hu hpc

theorem Office.seated_moved (hlives : (s.loc t).request ≠ .Exit) (u : T) (k : Kind) (i : Int)
    (q : Talk) (hu : (s'.loc u).talk k i = some q)
    (hq : q ≠ .setBusy ∧ q ≠ .releaseLine ∧ q ≠ .acquire) : 0 ≤ i ∧ i < MAXCLERKS := by
  by_cases hut : u = t
  · subst hut
    rw [hloc, Function.update_self] at hu
    rcases Loc.talk_next hu with ⟨bribe, q₀, hv, hnext⟩ | ⟨rfl, -⟩ | ⟨rfl, -⟩ | ⟨bribe, hv⟩
    · by_cases hacq : q₀ = .acquire
      · subst hacq
        obtain ⟨number, -, hreq, -⟩ := Loc.visit_SSN hv
        rw [hreq] at hlives
        exact acquireClerkLock_ne hlives
      · refine hx.seated u k i q₀ (Loc.talk_iff.mpr ⟨bribe, hv⟩) ⟨?_, ?_, hacq⟩
        · rintro rfl
          cases hnext
          exact hq.2.1 rfl
        · rintro rfl
          cases hnext
          exact hq.2.2 rfl
    · exact absurd rfl hq.1
    · exact absurd rfl hq.1
    · exact absurd hv (hx.locked u k bribe i _)
  · rw [hloc, Function.update_of_ne hut] at hu
    exact hx.seated u k i q hu hq

omit hx hloc in
include hval in
/-- The flag is taken back in one place. -/
theorem Office.lowered (hflag : flag s.val ≠ 0) (hflag' : flag s'.val = 0) :
    s.loc t = .manager (.senators .unsetWaitOutSide) := by
  rw [hval] at hflag'
  rcases (s.loc t).flags o.CLERKCOUNT s.val with ⟨-, hsame, -⟩ | ⟨c, -, -, hone⟩ |
    ⟨-, -, hsame⟩ | ⟨-, -, hsame⟩ | ⟨hpc, -⟩
  · exact absurd (hsame.symm.trans hflag') hflag
  · cases hone.symm.trans hflag'
  · exact absurd (hsame.symm.trans hflag') hflag
  · exact absurd (hsame.symm.trans hflag') hflag
  · exact hpc

omit hx hloc in
include hs hex in
/-- There no customer is past its check. -/
theorem Office.none_past (hpc : s.loc t = .manager (.senators .unsetWaitOutSide)) {u : T}
    {c : Customer} (hu : s.loc u = .customer c) : c.pastCheck = false := by
  have hloose := (hex.alone (.inr ⟨t, hpc⟩) u).1
  rw [hu] at hloose
  exact (Bool.or_eq_false_iff.mp hloose).1

omit hloc in
include hs hex in
/-- And nobody visits a clerk. -/
theorem Office.none_visits (hpc : s.loc t = .manager (.senators .unsetWaitOutSide)) (u : T) :
    (s.loc u).visit = none := by
  cases hv : (s.loc u).visit with
  | none => rfl
  | some v =>
    exfalso
    have hproper := hx.proper u
    rcases Loc.visit_cases hv with ⟨me, past, hp⟩ | ⟨me, hp⟩
    · have hpast := none_past hs hex hpc hp
      rw [hp] at hproper
      cases hpast.symm.trans hproper.1
    · have hclaim := hs.claim (t := t) (by rw [hpc]; rintro c l ⟨⟩)
      rw [hpc] at hclaim
      have hnone := hs.none_counted (x := .senatorPresentCount) rfl hclaim.1 u
      rw [hp] at hnone
      cases hnone

omit hloc in
include hs in
/-- A customer that was woken in line is called, while nobody is kept outside. -/
theorem Office.called (hflag : flag s.val = 0) {u : T} {k : Kind} {bribe : Bool} {i : Int}
    (hu : (s.loc u).visit = some ⟨k, bribe, .line (.look i)⟩) : Signaled s.val k i := by
  obtain ⟨number, -, hreq, hheld⟩ := Loc.visit_SSN hu
  rcases hx.pending hflag k i u ⟨bribe, .inr (.inr hu)⟩ with hsig | ⟨v, c, hc, hline, hpc⟩
  · exact hsig
  · -- the clerk would hold the line lock, too
    obtain ⟨c', hc', hk, -⟩ := Loc.line_clerk hline
    cases hc.symm.trans hc'
    have hsame : v = u := by
      refine hs.alone (m := .lineLock k) ?_ ?_ (.inr fun d hw => ?_) (.inr fun d hw => ?_)
      · rw [hc]
        obtain ⟨k', myLine, money, fromLine, SSN, pc⟩ := c
        cases hpc
        obtain rfl : k' = k := hk
        rfl
      · rw [hheld]
        exact ⟨by rintro ⟨⟩, rfl⟩
      · rw [hc] at hw
        obtain ⟨k', myLine, money, fromLine, SSN, pc⟩ := c
        cases hpc
        cases hw
      · cases hreq.symm.trans hw
    subst hsame
    rw [hc] at hu
    cases hu

include hs hex hval in
/-- **Who is not called is sent outside.** -/
theorem Office.turned_moved (u : T) (c : Customer) (hu : s'.loc u = .customer c)
    (hc : c.Turned) : flag s'.val ≠ 0 := by
  by_cases hut : u = t
  · subst hut
    rw [hloc, Function.update_self] at hu
    cases hp : s.loc u with
    | customer d =>
      rw [hp] at hu
      -- a customer does not change the flag
      have hflag : flag s.val ≠ 0 := by
        cases hu
        rcases Customer.turned_next hc with hd | ⟨k, bribe, i, hd, ha⟩
        · exact hx.turned u d hp hd
        · intro hzero
          have hv : (s.loc u).visit = some ⟨k, bribe, .line (.look i)⟩ := by
            rw [hp]
            obtain ⟨me, past, pc⟩ := d
            cases hd
            rfl
          obtain ⟨number, -, hreq, -⟩ := Loc.visit_SSN hv
          rw [← hp, hreq] at ha
          exact ha (called hs hx hzero hv)
      intro hflag'
      cases hp.symm.trans (lowered hval hflag hflag')
    | _ =>
      rw [hp] at hu
      cases hu
  · rw [hloc, Function.update_of_ne hut] at hu
    intro hflag'
    have hpc := lowered hval (hx.turned u c hu hc) hflag'
    have hpast := none_past hs hex hpc hu
    have hproper := hx.proper u
    rw [hu] at hproper
    obtain ⟨me, past, pc⟩ := c
    rcases hc with ⟨k, bribe, i, hpc'⟩ | ⟨k, bribe, i, p, hpc', hp⟩
    · cases hpc'
      cases hpast.symm.trans hproper.1
    · cases hpc'
      have htrue : past = true := hproper.1 (hp.imp_right .inl)
      cases hpast.symm.trans htrue

end Kept

/-! ### Who is on its way to look -/

section Pending

variable {T : Type} [DecidableEq T] [Fintype T] {o : Office T} {s s' : State T} {k : Kind} {i : Int}
  {u v : T}

/-- A clerk has woken somebody in one of its lines just now. -/
def CalledBy (s : State T) (k : Kind) (i : Int) (t u : T) : Prop :=
  ∃ c bribe, s.loc t = .clerk c ∧ c.kind = k ∧ c.myLine = i ∧
    (c.pc = .call .signalBribe ∨ c.pc = .call .signalLine) ∧
    (s.loc t).request = .Signal (Visit.lineCV k bribe i) (.lineLock k) ∧
    u ∈ (s.waiters (Visit.lineCV k bribe i)).take 1

/-- **How one comes to be on its way**: it was, or the clerk of the line has woken it. -/
theorem Office.pending_micro (hs : o.Sound s) (hex : o.Exclusive s) (hflag : flag s.val = 0)
    {w : Option T} (hm : Moved (program o.CLERKCOUNT) s s' w)
    (hu : (s'.loc u).Pending k i (s'.mode u)) :
    (s.loc u).Pending k i (s.mode u) ∨
      ∃ t r, Goes (program o.CLERKCOUNT) s s' t r ∧ CalledBy s k i t u := by
  obtain ⟨bribe, hpending⟩ := hu
  -- the request of one that waits in line
  have hwaits : ∀ {u}, (s.loc u).visit = some ⟨k, bribe, .line (.wait i)⟩ →
      (program o.CLERKCOUNT).request (s.loc u) =
        .Wait (Visit.lineCV k bribe i) (.lineLock k) := by
    intro u hv
    obtain ⟨number, -, hreq, -⟩ := Loc.visit_SSN hv
    exact hreq
  have hlater : ∀ {u}, (∃ b, (s.loc u).visit = some ⟨k, bribe, .line (.leave i b)⟩) ∨
      (s.loc u).visit = some ⟨k, bribe, .line (.look i)⟩ → (s.loc u).Pending k i (s.mode u) :=
    fun h => ⟨bribe, .inr h⟩
  cases hm with
  | @stops t m h =>
    rw [h.loc] at hpending
    rcases hpending with ⟨hv, hmode⟩ | hlate
    · by_cases hut : u = t
      · subst hut
        rw [h.mode, Function.update_self] at hmode
        rcases h.why with ⟨l, w, hacq, -⟩ | ⟨c, l, -, -, rfl, -⟩
        · cases (hwaits hv).symm.trans hacq
        · cases hmode
      · rw [h.mode, Function.update_of_ne hut] at hmode
        exact .inl ⟨bribe, .inl ⟨hv, hmode⟩⟩
    · exact .inl (hlater hlate)
  | @granted t l h =>
    by_cases hut : u = t
    · subst hut
      rw [h.loc, h.mode, Function.update_self, Function.update_self] at hpending
      have hlate : ∃ q, ((s.loc u).next o.CLERKCOUNT 0 0).visit = some ⟨k, bribe, .line q⟩ ∧
          ((∃ b, q = .leave i b) ∨ q = .look i) := by
        rcases hpending with ⟨-, hmode⟩ | ⟨b, hv⟩ | hv
        · cases hmode
        · exact ⟨_, hv, .inl ⟨b, rfl⟩⟩
        · exact ⟨_, hv, .inr rfl⟩
      obtain ⟨q, hv, hq⟩ := hlate
      rcases Loc.leave_next hv hq with hv' | ⟨b, hv'⟩
      · refine .inl ⟨bribe, .inl ⟨hv', ?_⟩⟩
        rcases hs.locked.queued l u h.queued with hreq | ⟨c, hreq⟩
        · cases (hwaits hv').symm.trans hreq
        · cases (hwaits hv').symm.trans hreq
          exact h.queued
      · exact .inl (hlater (.inl ⟨b, hv'⟩))
    · rw [h.loc, h.mode, Function.update_of_ne hut, Function.update_of_ne hut] at hpending
      exact .inl ⟨bribe, hpending⟩
  | @goes t r h =>
    by_cases hut : u = t
    · subst hut
      have hrun : s'.mode u = .running := (h.mode u fun e he => by
        cases h.running.symm.trans he).trans h.running
      rw [h.loc, hrun, Function.update_self] at hpending
      have hlate : ∃ q, ((s.loc u).next o.CLERKCOUNT (answered o.CLERKCOUNT (s.loc u).request
            s.val).1 r).visit = some ⟨k, bribe, .line q⟩ ∧
          ((∃ b, q = .leave i b) ∨ q = .look i) := by
        rcases hpending with ⟨-, hmode⟩ | ⟨b, hv⟩ | hv
        · cases hmode
        · exact ⟨_, hv, .inl ⟨b, rfl⟩⟩
        · exact ⟨_, hv, .inr rfl⟩
      obtain ⟨q, hv, hq⟩ := hlate
      rcases Loc.leave_next hv hq with hv' | ⟨b, hv'⟩
      · exact absurd (hwaits hv') (h.awake _ _)
      · exact .inl (hlater (.inl ⟨b, hv'⟩))
    · rw [h.loc, Function.update_of_ne hut] at hpending
      rcases hpending with ⟨hv, hmode⟩ | hlate
      · by_cases hsame : s'.mode u = s.mode u
        · exact .inl ⟨bribe, .inl ⟨hv, hsame ▸ hmode⟩⟩
        · -- it was asleep, and is woken
          obtain ⟨d, hd, l, hwakes⟩ : ∃ d, s.mode u = .asleep d ∧ ∃ l,
              (s.loc t).request = .Signal d l ∨ (s.loc t).request = .Broadcast d l := by
            by_contra hnot
            refine hsame (h.mode u fun d hd l => ⟨fun hsig => ?_, fun hb => ?_⟩)
            · exact hnot ⟨d, hd, l, .inl hsig⟩
            · exact hnot ⟨d, hd, l, .inr hb⟩
          have hline : d = Visit.lineCV k bribe i := by
            injection (hwaits hv).symm.trans (hs.locked.asleep d u hd) with hcv
            exact hcv.symm
          subst hline
          rcases Loc.wakes_line hwakes with ⟨c, hc, hk, hi, hpc, hsig⟩ | ⟨k', q, hlines⟩
          · have hin := (s.loc t).inOrder
            rw [hsig] at hin
            have hl : l = .lineLock k := hin.1.trans (lock_lineCV k bribe i)
            subst hl
            have howner := hs.locked.owner_of_held h.running hin.2
            rw [h.signals _ _ hsig howner] at hmode
            refine .inr ⟨t, r, h, c, bribe, hc, hk, hi, hpc, hsig, ?_⟩
            by_contra hnot
            cases hd.symm.trans ((if_neg hnot).symm.trans hmode)
          · exact absurd hflag (hex.lines t k' q hlines).1
      · exact .inl (hlater hlate)

/-- A clerk that wakes its line is at no counter, and of this line. -/
theorem CalledBy.line {t : T} (h : CalledBy s k i t u) :
    ∃ c, s.loc t = .clerk c ∧ (s.loc t).line k = some i ∧
      (c.pc = .call .signalBribe ∨ c.pc = .call .signalLine) := by
  obtain ⟨c, bribe, hc, hk, hi, hpc, -⟩ := h
  refine ⟨c, hc, ?_, hpc⟩
  rw [hc]
  show (if c.kind = k then c.line else none) = some i
  rw [if_pos hk, ← hi]
  rcases hpc with hpc | hpc <;> rw [Clerk.line, hpc]

/-- The one in line that is on its way, or has come. -/
def Expected (s : State T) (k : Kind) (i : Int) (u : T) : Prop :=
  (s.loc u).Pending k i (s.mode u) ∨ (s.loc u).talk k i = some .setBusy

theorem Loc.Pending.chosen {p : Loc} {m : Mode Lock CV} (h : p.Pending k i m) :
    ∃ bribe q, p.visit = some ⟨k, bribe, .line q⟩ ∧ q.chosen = some i := by
  obtain ⟨bribe, ⟨hv, -⟩ | ⟨b, hv⟩ | hv⟩ := h <;> exact ⟨bribe, _, hv, rfl⟩

theorem Office.Served.pending_range (hx : o.Served s) (hu : (s.loc u).Pending k i (s.mode u)) :
    0 ≤ i ∧ i < MAXCLERKS := by
  obtain ⟨bribe, q, hv, hq⟩ := hu.chosen
  exact hx.chosen u k bribe q i hv hq

/-- **When a clerk wakes its line**, nobody else of it is on its way. -/
theorem Office.Served.none_expected (hx : o.Served s) (hflag : flag s.val = 0)
    (hrange : 0 ≤ i ∧ i < MAXCLERKS) {t : T} (h : CalledBy s k i t u) (v : T) :
    ¬ Expected s k i v := by
  obtain ⟨c, hc, hline, hpc⟩ := h.line
  have hdesk := hx.counter k i hrange
  rintro (hv | hv)
  · rcases hx.pending hflag k i v hv with hsig | ⟨t', c', hc', hline', hpc'⟩
    · obtain ⟨t', c', hc', hline', hcalled⟩ := hdesk.signaled hsig
      obtain rfl := hx.line_unique hline t' hline'
      cases hc.symm.trans hc'
      rcases hcalled with hpc' | hpc' | ⟨hpc', -⟩ <;>
        rcases hpc with hpc | hpc <;> cases hpc.symm.trans hpc'
    · obtain rfl := hx.line_unique hline t' hline'
      cases hc.symm.trans hc'
      rcases hpc with hpc | hpc <;> cases hpc.symm.trans hpc'
  · have hat := ((hdesk.fits t c v _ hc hline hv).arriving (.inl rfl)).1
    rcases hpc with hpc | hpc <;> cases hpc.symm.trans hat

/-- Who has come was on its way. -/
theorem Office.Served.expected_micro (hs : o.Sound s) (hex : o.Exclusive s) (hx : o.Served s)
    (hflag : flag s.val = 0) (hrange : 0 ≤ i ∧ i < MAXCLERKS) {w : Option T}
    (hm : Moved (program o.CLERKCOUNT) s s' w) (hu : Expected s' k i u) :
    Expected s k i u ∨ ∃ t r, Goes (program o.CLERKCOUNT) s s' t r ∧ CalledBy s k i t u := by
  rcases hu with hu | hu
  · exact (Office.pending_micro hs hex hflag hm hu).imp_left .inl
  · refine .inl ?_
    rcases hm.advances hs.locked with ⟨hloc, -⟩ | ⟨t, r, hloc, -⟩
    · rw [hloc] at hu
      exact .inr hu
    · by_cases hut : u = t
      · subst hut
        rw [hloc, Function.update_self] at hu
        rcases Loc.talk_next hu with ⟨bribe, q, -, hnext⟩ | ⟨-, bribe, hv, -⟩ |
          ⟨-, bribe, hv, ha⟩ | ⟨bribe, hv⟩
        · exfalso
          cases q <;> simp only [Visit.next, Visit.Talk.next] at hnext <;> grind
        · exact .inl ⟨bribe, .inr (.inr hv)⟩
        · obtain ⟨number, -, hreq, -⟩ := Loc.visit_SSN hv
          rw [show (program o.CLERKCOUNT).request (s.loc u) = _ from hreq] at ha
          exact absurd ha (hx.states k i hrange)
        · exact absurd hv (hx.locked u k bribe i _)
      · rw [hloc, Function.update_of_ne hut] at hu
        exact .inr hu

/-- **One at a time** is on its way to a counter, while nobody is kept outside. -/
theorem Office.Served.pending_one_kept (hs : o.Sound s) (hex : o.Exclusive s) (hx : o.Served s)
    (hflag : flag s.val = 0) (hrange : 0 ≤ i ∧ i < MAXCLERKS) {w : Option T}
    (hm : Moved (program o.CLERKCOUNT) s s' w) (hu : Expected s' k i u) (hv : Expected s' k i v) :
    u = v := by
  rcases hx.expected_micro hs hex hflag hrange hm hu with hu | ⟨t, -, -, htu⟩
  · rcases hx.expected_micro hs hex hflag hrange hm hv with hv | ⟨t, -, -, htv⟩
    · exact hx.pending_one hflag k i hrange u v hu hv
    · exact absurd hu (hx.none_expected hflag hrange htv u)
  · rcases hx.expected_micro hs hex hflag hrange hm hv with hv | ⟨t', -, -, htv⟩
    · exact absurd hv (hx.none_expected hflag hrange htu v)
    · -- both were woken by the one signal of the clerk
      obtain ⟨c, -, hline, -⟩ := htu.line
      obtain ⟨c', -, hline', -⟩ := htv.line
      obtain rfl := hx.line_unique hline t' hline'
      obtain ⟨-, bribe, -, -, -, -, hreq, hmem⟩ := htu
      obtain ⟨-, bribe', -, -, -, -, hreq', hmem'⟩ := htv
      injection hreq.symm.trans hreq' with hcv
      rw [← hcv] at hmem'
      cases hwaiters : s.waiters (Visit.lineCV k bribe i) with
      | nil =>
        rw [hwaiters] at hmem
        cases hmem
      | cons a l =>
        rw [hwaiters] at hmem hmem'
        exact (List.mem_singleton.mp hmem).trans (List.mem_singleton.mp hmem').symm

/-- **Who is on its way is called**, while nobody is kept outside. -/
theorem Office.Served.pending_kept (hs : o.Sound s) (hex : o.Exclusive s) (hx : o.Served s)
    (hflag : flag s.val = 0) {w : Option T} (hm : Moved (program o.CLERKCOUNT) s s' w)
    (hu : (s'.loc u).Pending k i (s'.mode u)) :
    Signaled s'.val k i ∨ ∃ t c, s'.loc t = .clerk c ∧ (s'.loc t).line k = some i ∧
      c.pc = .call .setSignaled := by
  rcases Office.pending_micro hs hex hflag hm hu with hold | ⟨t, r, hgoes, hcalled⟩
  · have hrange := hx.pending_range hold
    have hmoves := hm.advances hs.locked
    rcases hx.pending hflag k i u hold with hsig | ⟨t, c, hc, hline, hpc⟩
    · -- the ticket is taken by its customer, and the clerk does not take it back
      left
      rcases hmoves with ⟨-, hval⟩ | ⟨t, r, -, hval, -⟩
      · rw [hval]
        exact hsig
      · unfold Signaled at hsig ⊢
        rw [hval]
        rcases get_answered_cases o.CLERKCOUNT (s.loc t).request (.clerkState k) s.val i with
          hsame | ⟨v, hset, hv⟩
        · exact hsame.trans hsig
        · rcases hx.sets_state hset with ⟨htalk, -⟩ | ⟨c, hc, hline, ⟨-, rfl⟩ | ⟨⟨p, hp⟩, -⟩⟩
          · obtain rfl := hx.pending_one hflag k i hrange u t (.inl hold) (.inr htalk)
            obtain ⟨bribe, q, hvisit, -⟩ := hold.chosen
            obtain ⟨bribe', hvisit'⟩ := Loc.talk_iff.mp htalk
            cases hvisit.symm.trans hvisit'
          · exact hv
          · obtain ⟨t', c', hc', hline', hcalled⟩ := (hx.counter k i hrange).signaled hsig
            obtain rfl := hx.line_unique hline t' hline'
            cases hc.symm.trans hc'
            rcases hcalled with hpc | hpc | ⟨hpc, -⟩ <;> cases hp.symm.trans hpc
    · rcases hmoves with ⟨hloc, -⟩ | ⟨t', r, hloc, hval, -⟩
      · exact .inr ⟨t, c, by rw [hloc]; exact hc, by rw [hloc]; exact hline, hpc⟩
      · by_cases htt : t = t'
        · subst htt
          left
          obtain ⟨c', hc', hk, hi, -⟩ := Loc.line_clerk hline
          cases hc.symm.trans hc'
          have hreq : (program o.CLERKCOUNT).request (s.loc t) =
              .Set (.clerkState k) i SIGNALEDCUSTOMER := by
            rw [hc]
            obtain ⟨k', myLine, money, fromLine, SSN, pc⟩ := c
            cases hpc
            obtain rfl : k' = k := hk
            obtain rfl : myLine = i := hi
            rfl
          unfold Signaled
          rw [hval, hreq]
          exact get_set_self _ hrange
        · have heq : s'.loc t = s.loc t := by rw [hloc, Function.update_of_ne htt]
          exact .inr ⟨t, c, heq.trans hc, by rw [heq]; exact hline, hpc⟩
  · -- the clerk that has woken it says so next
    right
    obtain ⟨c, hc, hline, hpc⟩ := hcalled.line
    have hself : s'.loc t = (s.loc t).next o.CLERKCOUNT
        (answered o.CLERKCOUNT (s.loc t).request s.val).1 r := by
      rw [hgoes.loc, Function.update_self]
      rfl
    have hline' : (s'.loc t).line k = some i := by
      rw [hself]
      exact Loc.line_kept hline
    rw [hc] at hself
    refine ⟨t, _, hself, hline', ?_⟩
    obtain ⟨k', myLine, money, fromLine, SSN, pc⟩ := c
    rcases hpc with hpc | hpc <;> cases hpc <;> rfl

end Pending

end Nachos.Passport

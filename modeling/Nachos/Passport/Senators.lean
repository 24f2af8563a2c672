import Mathlib.Algebra.BigOperators.Ring.Finset
import Nachos.Passport.Sound

/-!
# The passport office: senators have it to themselves

The manager raises `senatorPresentWaitOutSide` first, and `senatorSafeToEnter` only when no
customer is counted inside; it takes both back when no senator is. A customer that comes back
in was woken by the manager after that, and the manager does not hold its lock again before
all of them have got it. So while it is safe for senators no customer is past its check, or on
its way there (`Exclusive`).
-/

namespace Nachos.Passport

open Lib Lib.Monitor

set_option linter.unusedSectionVars false

/-! ### Customers that are past their check -/

/-- Woken from the line outside, or let in at once: the customer does not look at the flag again. -/
def Check.comesIn : Check → Bool
  | .goInside _ | .leaveLine _ | .release _ => true
  | _ => false

/-- The customer is past its check, or on its way there. -/
def Customer.loose (c : Customer) : Bool :=
  c.pastCheck ||
    match c.pc with
    | .check p | .recheck _ _ _ p => p.comesIn
    | _ => false

def Loc.loose : Loc → Bool
  | .customer c => c.loose
  | _ => false

theorem Check.comesIn_next {p q : Check} {a : Int} (h : p.next a = some q) (hq : q.comesIn = true) :
    p.comesIn = true ∨ p = .wait ∨ (p = .getWaitOutSide ∧ a = 0) := by
  cases p with
  | goInside b | leaveLine b => exact .inl rfl
  | wait => exact .inr (.inl rfl)
  | getWaitOutSide =>
    simp only [next] at h
    split at h
    · cases h
      cases hq
    · rename_i ha
      exact .inr (.inr ⟨rfl, not_not.mp ha⟩)
  | goOutside b | joinLine b => cases b <;> cases h <;> cases hq
  | _ => cases h <;> cases hq

/-- A check that returns is at its `Release`. -/
theorem Check.comesIn_returns {p : Check} {a : Int} (h : p.next a = none) : p.comesIn = true := by
  cases p with
  | release present => rfl
  | getWaitOutSide =>
    simp only [next] at h
    split at h <;> cases h
  | _ => cases h

theorem Check.inside_returns {p : Check} {a : Int} (h : p.next a = none) : p.inside = true := by
  cases p with
  | release present => rfl
  | getWaitOutSide =>
    simp only [next] at h
    split at h <;> cases h
  | _ => cases h

/-- **How a customer gets past its check**: woken outside, or without a flag. -/
theorem Customer.loose_next (n : Nat) (c : Customer) (a : Int) (r : Nat)
    (h : (c.next n a r).loose = true) :
    c.loose = true ∨ c.request = .Wait .outsideLineCV .managerLock ∨
      (c.request = .Get .senatorPresentWaitOutSide 0 ∧ a = 0 ∧ c.held .managerLock) := by
  obtain ⟨me, past, pc⟩ := c
  have hpast : ∀ {q : Bool}, (past && !q) = true → past = true := fun hq =>
    (Bool.and_eq_true_iff.mp hq).1
  cases pc with
  | checkIn p | draw p | checkOut p =>
    refine .inl ?_
    simp only [next] at h
    split at h <;> simp_all [loose, Check.comesIn]
  | check p | recheck k bribe myLine p =>
    simp only [next] at h
    split at h
    · rename_i q hq
      rcases Bool.or_eq_true_iff.mp h with h | h
      · exact .inl (Bool.or_eq_true_iff.mpr (.inl (hpast h)))
      · rcases p.comesIn_next hq h with hp | rfl | ⟨rfl, ha⟩
        · exact .inl (Bool.or_eq_true_iff.mpr (.inr hp))
        · exact .inr (.inl rfl)
        · exact .inr (.inr ⟨rfl, ha, by rintro ⟨⟩, rfl⟩)
    · rename_i hq
      exact .inl (Bool.or_eq_true_iff.mpr (.inr (p.comesIn_returns hq)))
  | visit v =>
    refine .inl ?_
    simp only [next] at h
    split at h <;> simp_all [loose, Check.comesIn]
  | exited => exact .inl h

/-- A customer that is past its check is counted inside. -/
theorem Customer.past_next (n : Nat) (c : Customer) (a : Int) (r : Nat)
    (hc : c.pastCheck = true → c.pc.inside = true) (h : (c.next n a r).pastCheck = true) :
    (c.next n a r).pc.inside = true := by
  obtain ⟨me, past, pc⟩ := c
  by_cases hset : ∃ v, (Customer.mk me past pc).request = .Set .customersPresentCount 0 v
  · obtain ⟨v, hv⟩ := hset
    cases pc with
    | checkIn p => cases p with
      | present b => cases b with
        | get => cases hv
        | set temp => rfl
      | _ => cases hv
    | draw p => cases p <;> cases hv
    | check p | recheck k bribe myLine p => cases p with
      | goOutside b => cases b with
        | get => cases hv
        | set temp => exact absurd h (by simp [next, Check.next, Check.goesOutside])
      | goInside b => cases b with
        | get => cases hv
        | set temp => rfl
      | joinLine b | leaveLine b => cases b <;> cases hv
      | _ => cases hv
    | visit w => exact (Visit.not_set rfl hv).elim
    | checkOut p => cases p with
      | present b => cases b with
        | get => cases hv
        | set temp => exact absurd h (by simp [next, CheckOut.next, CheckOut.leaves])
      | checkedOut b => cases b <;> cases hv
      | _ => cases hv
    | exited => cases hv
  · rw [inside_next n a r _ fun v hv => hset ⟨v, hv⟩]
    cases pc with
    | check p | recheck k bribe myLine p =>
      simp only [next] at h
      split at h
      · exact hc (Bool.and_eq_true_iff.mp h).1
      · rename_i hq
        exact p.inside_returns hq
    | checkOut p =>
      simp only [next] at h
      split at h
      · exact hc (Bool.and_eq_true_iff.mp h).1
      · exact hc h
    | _ =>
      refine hc ?_
      simp only [next] at h
      repeat' split at h
      all_goals exact h

/-! ### The two flags -/

/-- `senatorSafeToEnter` and `senatorPresentWaitOutSide`. -/
abbrev safe (val : MV → Int → Int) : Int := MV.senatorSafeToEnter.get val 0

abbrev flag (val : MV → Int → Int) : Int := MV.senatorPresentWaitOutSide.get val 0

theorem answered_safe (n : Nat) (val : MV → Int → Int) (v : Int) :
    safe (answered n (.Set .senatorSafeToEnter 0 v) val).2 = v ∧
      flag (answered n (.Set .senatorSafeToEnter 0 v) val).2 = flag val :=
  ⟨get_set_self n ⟨le_rfl, Int.zero_lt_one⟩, get_answered n _ val 0 nofun⟩

theorem answered_flag (n : Nat) (val : MV → Int → Int) (v : Int) :
    safe (answered n (.Set .senatorPresentWaitOutSide 0 v) val).2 = safe val ∧
      flag (answered n (.Set .senatorPresentWaitOutSide 0 v) val).2 = v :=
  ⟨get_answered n _ val 0 nofun, get_set_self n ⟨le_rfl, Int.zero_lt_one⟩⟩

/-- **Only the manager changes the flags**, in four places. -/
theorem Loc.flags (n : Nat) (p : Loc) (val : MV → Int → Int) :
    (safe (answered n p.request val).2 = safe val ∧
        flag (answered n p.request val).2 = flag val ∧
        p ≠ .manager (.senators .unsetSafe)) ∨
      (∃ c, p = .manager (.senators (.setWaitOutSide c)) ∧
        safe (answered n p.request val).2 = safe val ∧ flag (answered n p.request val).2 = 1) ∨
      (p = .manager (.senators .setSafe) ∧
        safe (answered n p.request val).2 = 1 ∧ flag (answered n p.request val).2 = flag val) ∨
      (p = .manager (.senators .unsetSafe) ∧
        safe (answered n p.request val).2 = 0 ∧ flag (answered n p.request val).2 = flag val) ∨
      (p = .manager (.senators .unsetWaitOutSide) ∧
        safe (answered n p.request val).2 = safe val ∧ flag (answered n p.request val).2 = 0) := by
  by_cases hset : ∃ x i v, p.request = .Set x i v ∧
    (x = .senatorSafeToEnter ∨ x = .senatorPresentWaitOutSide)
  · obtain ⟨x, i, v, hreq, hx⟩ := hset
    have hwriter := p.writtenBy hreq
    refine .inr ?_
    cases p with
    | manager pc =>
      cases pc with
      | exited => cases hreq
      | senators p => cases p with
        | setWaitOutSide c => exact .inl ⟨c, rfl, answered_flag n val 1⟩
        | setSafe => exact .inr (.inl ⟨rfl, answered_safe n val 1⟩)
        | unsetSafe => exact .inr (.inr (.inl ⟨rfl, answered_safe n val 0⟩))
        | unsetWaitOutSide => exact .inr (.inr (.inr ⟨rfl, answered_flag n val 0⟩))
        | _ => cases hreq
      | endOfDay p =>
        cases p <;> cases hreq
        rcases hx with hx | hx <;> cases hx
      | lines _ p | wakeUp _ p | wakeAll _ p => cases p <;> cases hreq
    | _ => rcases hx with rfl | rfl <;> exact nomatch hwriter
  · refine .inl ⟨get_answered n _ val 0 fun j v hreq => hset ⟨_, j, v, hreq, .inl rfl⟩,
      get_answered n _ val 0 fun j v hreq => hset ⟨_, j, v, hreq, .inr rfl⟩, ?_⟩
    rintro rfl
    exact hset ⟨_, 0, 0, rfl, .inl rfl⟩

/-- The flag is taken back after the senators have been sent away. -/
theorem Loc.next_unsetWaitOutSide {n : Nat} {p : Loc} {a : Int} {r : Nat}
    (h : p.next n a r = .manager (.senators .unsetWaitOutSide)) :
    p = .manager (.senators .unsetSafe) := by
  cases p with
  | manager pc =>
    have hpc : pc.next n a = .senators .unsetWaitOutSide := by
      injection h
    cases pc with
    | senators p =>
      simp only [ManagerPC.next] at hpc
      cases p <;> grind [ManagerPC.nextSenators]
    | endOfDay p =>
      simp only [ManagerPC.next] at hpc
      grind
    | lines k p | wakeUp k p | wakeAll k p =>
      simp only [ManagerPC.next] at hpc
      grind
    | exited => cases hpc
  | _ => cases h

/-- The manager goes to the lines when it has found customers inside. -/
theorem Loc.next_lines {n : Nat} {p : Loc} {a : Int} {r : Nat} {k : Kind} {q : LineDuty}
    (h : p.next n a r = .manager (.lines k q)) :
    p = .manager (.senators .releaseToBroadcast) ∨ ∃ k' q', p = .manager (.lines k' q') := by
  cases p with
  | manager pc =>
    have hpc : pc.next n a = .lines k q := by
      injection h
    cases pc with
    | lines k' q' => exact .inr ⟨k', q', rfl⟩
    | senators p =>
      simp only [ManagerPC.next] at hpc
      cases p <;> grind [ManagerPC.nextSenators]
    | endOfDay p | wakeUp k p | wakeAll k p =>
      simp only [ManagerPC.next] at hpc
      grind
    | exited => cases hpc
  | _ => cases h

/-- A senator is counted inside from the moment on that it enters. -/
theorem Senator.inside_enters (n : Nat) (c : Senator) (a : Int) (r : Nat)
    (h : (c.next n a r).pc.inside = true) :
    c.pc.inside = true ∨ ∃ temp, c.pc = .arrive (.enter (.set temp)) := by
  by_cases hset : ∃ v, c.request = .Set .senatorPresentCount 0 v
  · obtain ⟨v, hv⟩ := hset
    obtain ⟨me, pc⟩ := c
    cases pc with
    | draw p => cases p <;> cases hv
    | arrive p => cases p with
      | enter b => cases b with
        | get => cases hv
        | set temp => exact .inr ⟨temp, rfl⟩
      | joinLine b | leaveLine b => cases b <;> cases hv
      | _ => cases hv
    | visit w => exact (Visit.not_set rfl hv).elim
    | leave p => cases p with
      | present b => exact .inl rfl
      | checkedOut b => cases b <;> cases hv
      | _ => cases hv
    | exited => cases hv
  · rw [inside_next n a r c fun v hv => hset ⟨v, hv⟩] at h
    exact .inl h

section Exclusive

variable {T : Type} [DecidableEq T] [Fintype T] {o : Office T} {s s' : State T}

/-- **Why senators are alone.** Their flags go up in order, a senator inside has found it safe,
and while it is safe no customer is past its check or coming back in. The manager broadcasts to
the lines only while it is not safe. -/
structure Office.Exclusive (o : Office T) (s : State T) : Prop where
  flagged : safe s.val ≠ 0 → flag s.val ≠ 0
  inside : ∀ t c, s.loc t = .senator c → c.pc.inside = true →
    safe s.val ≠ 0
  past : ∀ t c, s.loc t = .customer c → c.pastCheck = true → c.pc.inside = true
  alone : safe s.val ≠ 0 ∨
      (∃ m, s.loc m = .manager (.senators .unsetWaitOutSide)) →
    ∀ t, (s.loc t).loose = false ∧
      ¬ Woken (program o.CLERKCOUNT) s .outsideLineCV .managerLock t
  asleep : safe s.val ≠ 0 →
    (∃ m, s.loc m = .manager (.senators .broadcastSenators)) ∨
      ∀ t, s.mode t ≠ .asleep .senatorLineCV
  lines : ∀ m k p, s.loc m = .manager (.lines k p) →
    flag s.val ≠ 0 ∧ safe s.val = 0

theorem Office.exclusive_init : o.Exclusive o.init where
  flagged h := absurd rfl h
  inside t c hc hin := by
    have hloc : (o.process t).start = .senator c := hc
    cases hp : o.process t <;> rw [hp] at hloc <;> cases hloc
    cases hin
  past t c hc hpast := by
    have hloc : (o.process t).start = .customer c := hc
    cases hp : o.process t <;> rw [hp] at hloc <;> cases hloc
    cases hpast
  alone h t := by
    rcases h with h | ⟨m, hm⟩
    · exact absurd rfl h
    · have hloc : (o.process m).start = _ := hm
      cases hp : o.process m <;> rw [hp] at hloc <;> cases hloc
  asleep h := absurd rfl h
  lines m k p hm := by
    have hloc : (o.process m).start = _ := hm
    cases hp : o.process m <;> rw [hp] at hloc <;> cases hloc

/-! ### What a move does to it

A thread `t` goes on with the answer to its request. -/

/-- Nobody outside is woken while customers are kept there. -/
theorem Office.not_woken (h : o.Sound s) (hx : o.Exclusive s) {t : Option T}
    (hm : Micro (program o.CLERKCOUNT) s t s')
    (hout : safe s.val ≠ 0 ∨ ∃ m, s.loc m = .manager (.senators .unsetWaitOutSide)) (u : T) :
    ¬ Woken (program o.CLERKCOUNT) s' .outsideLineCV .managerLock u := by
  intro hu
  rcases woken_micro h.locked hm hu with hwas | ⟨-, -, m, -, -, hreq⟩
  · exact (hx.alone hout u).2 hwas
  · rcases (s.loc m).wakes_managerLock rfl hreq with ⟨-, hc⟩ | ⟨hpc, -⟩
    · cases hc
    · have hclaim := h.known m (.inr fun c l => by rw [hpc]; nofun)
      rw [hpc] at hclaim
      rcases hout with hsafe | ⟨v, hv⟩
      · exact hsafe hclaim.2
      · have hvm := h.manager_unique (t := v) (u := m) ⟨_, hv⟩ ⟨_, hpc⟩
        rw [hvm, hpc] at hv
        cases hv

/-- The manager raises the second flag when no customer is inside, on its way in or woken. -/
theorem Office.none_loose (h : o.Sound s) (hx : o.Exclusive s) {t : T}
    (hpc : s.loc t = .manager (.senators .setSafe)) (u : T) :
    (s.loc u).loose = false := by
  have hclaim := h.known t (.inr fun c l => by rw [hpc]; nofun)
  rw [hpc] at hclaim
  have hnone := h.none_counted (x := .customersPresentCount) rfl hclaim.2 u
  cases hp : s.loc u with
  | customer c =>
    rw [hp] at hnone
    refine Bool.eq_false_iff.mpr fun hl => ?_
    rcases Bool.or_eq_true_iff.mp hl with hpast | hcomes
    · exact absurd ((show c.pc.inside = false from hnone).symm.trans (hx.past u c hp hpast)) nofun
    · -- it would hold the manager's lock
      have hheld : c.held .managerLock ∧ ∀ d, c.request ≠ .Wait d .managerLock := by
        obtain ⟨me, past, pc⟩ := c
        cases pc with
        | check p | recheck k bribe myLine p => cases p with
          | goInside b | leaveLine b => cases b <;> exact ⟨⟨nofun, rfl⟩, nofun⟩
          | release present => exact ⟨⟨nofun, rfl⟩, nofun⟩
          | _ => cases hcomes
        | _ => cases hcomes
      have hut : u = t := by
        refine h.alone (m := .managerLock) ?_ ?_ (.inr fun d => ?_) (.inr fun d => ?_)
        · rw [hp]
          exact hheld.1
        · rw [hpc]
          exact ⟨nofun, rfl⟩
        · rw [hp]
          exact hheld.2 d
        · rw [hpc]
          nofun
      rw [hut, hpc] at hp
      cases hp
  | _ => rfl

section Moved

variable (h : o.Sound s) (hx : o.Exclusive s) {t : T} {r : Nat}
  (hloc : s'.loc = Function.update s.loc t
    ((s.loc t).next o.CLERKCOUNT (answered o.CLERKCOUNT (s.loc t).request s.val).1 r))
  (hval : s'.val = (answered o.CLERKCOUNT (s.loc t).request s.val).2)
  (hwhy : (s.mode t = .running ∧ ∀ c l, (s.loc t).request ≠ .Wait c l) ∨
    ∃ l, s.mode t = .queued l ∧
      ((s.loc t).request = .Acquire l ∨ ∃ c, (s.loc t).request = .Wait c l))

include h

/-- What a thread knows that does not wait. -/
theorem Office.Sound.claim (hnot : ∀ c l, (s.loc t).request ≠ .Wait c l) :
    (s.loc t).claim s.val :=
  h.known t (.inr hnot)

include hx hloc hval

theorem Office.flag_moved : safe s'.val ≠ 0 → flag s'.val ≠ 0 := by
  intro hsafe'
  rw [hval] at hsafe' ⊢
  rcases (s.loc t).flags o.CLERKCOUNT s.val with ⟨hsafe, hflag, -⟩ | ⟨c, -, -, hflag⟩ |
    ⟨hpc, -, hflag⟩ | ⟨-, hsafe, -⟩ | ⟨hpc, hsafe, -⟩
  · rw [hsafe] at hsafe'
    rw [hflag]
    exact hx.flagged hsafe'
  · rw [hflag]
    decide
  · have hclaim := h.claim (t := t) (by rw [hpc]; nofun)
    rw [hpc] at hclaim
    rw [hflag, show flag s.val = 1 from hclaim.1]
    decide
  · exact absurd hsafe hsafe'
  · have hclaim := h.claim (t := t) (by rw [hpc]; nofun)
    rw [hpc] at hclaim
    exact absurd (hsafe.trans hclaim.2) hsafe'

theorem Office.inside_moved (u : T) (c : Senator) (hu : s'.loc u = .senator c)
    (hin : c.pc.inside = true) : safe s'.val ≠ 0 := by
  -- the senator was inside before, or it enters and knows that it is safe
  have hsafe : safe s.val ≠ 0 := by
    by_cases hut : u = t
    · subst hut
      rw [hloc, Function.update_self] at hu
      cases hp : s.loc u with
      | senator c₀ =>
        rw [hp] at hu
        cases hu
        rcases c₀.inside_enters _ _ _ hin with hin₀ | ⟨temp, hpc⟩
        · exact hx.inside u c₀ hp hin₀
        · have hclaim := h.claim (t := u) (by
            obtain ⟨me, pc⟩ := c₀
            cases hpc
            rw [hp]
            nofun)
          obtain ⟨me, pc⟩ := c₀
          cases hpc
          rw [hp] at hclaim
          exact hclaim.2
      | _ =>
        rw [hp] at hu
        cases hu
    · rw [hloc, Function.update_of_ne hut] at hu
      exact hx.inside u c hu hin
  rw [hval]
  rcases (s.loc t).flags o.CLERKCOUNT s.val with ⟨hkept, -⟩ | ⟨c', -, hkept, -⟩ | ⟨-, hone, -⟩ |
    ⟨hpc, -, -⟩ | ⟨-, hkept, -⟩
  · rwa [hkept]
  · rwa [hkept]
  · rw [hone]
    decide
  · -- the manager has counted no senator inside
    have hclaim := h.claim (t := t) (by rw [hpc]; nofun)
    rw [hpc] at hclaim
    have hut : u ≠ t := by
      rintro rfl
      rw [hloc, Function.update_self, hpc] at hu
      cases hu
    have hnone := h.none_counted (x := .senatorPresentCount) rfl hclaim.2.1 u
    rw [hloc, Function.update_of_ne hut] at hu
    rw [hu] at hnone
    exact absurd hin (by rw [show c.pc.inside = false from hnone]; nofun)
  · rwa [hkept]

theorem Office.past_moved (u : T) (c : Customer) (hu : s'.loc u = .customer c)
    (hpast : c.pastCheck = true) : c.pc.inside = true := by
  by_cases hut : u = t
  · subst hut
    rw [hloc, Function.update_self] at hu
    cases hp : s.loc u with
    | customer c₀ =>
      rw [hp] at hu
      cases hu
      exact c₀.past_next _ _ _ (hx.past u c₀ hp) hpast
    | _ =>
      rw [hp] at hu
      cases hu
  · rw [hloc, Function.update_of_ne hut] at hu
    exact hx.past u c hu hpast

include hwhy

/-- While customers are kept outside none of them comes in. -/
theorem Office.loose_moved
    (hout : safe s.val ≠ 0 ∨ ∃ m, s.loc m = .manager (.senators .unsetWaitOutSide)) (u : T) :
    (s'.loc u).loose = false := by
  obtain ⟨hloose, hwoken⟩ := hx.alone hout u
  by_cases hut : u = t
  · subst hut
    rw [hloc, Function.update_self]
    cases hp : s.loc u with
    | customer c =>
      rw [hp] at hloose hwhy
      refine Bool.eq_false_iff.mpr fun hnext => ?_
      rcases c.loose_next _ _ _ hnext with hl | hwait | ⟨hget, hzero, hheld⟩
      · exact absurd (hloose.symm.trans hl) nofun
      · -- it waits outside, so it was woken
        rcases hwhy with ⟨-, hnot⟩ | ⟨l, hq, hreq | ⟨d, hreq⟩⟩
        · exact hnot _ _ hwait
        · exact nomatch (show c.request = _ from hreq).symm.trans hwait
        · cases (show c.request = _ from hreq).symm.trans hwait
          exact hwoken ⟨hq, by rw [hp]; exact hwait⟩
      · -- it has read the flag, under the manager's lock
        have hflag : flag s.val = 0 := by
          rw [show (Loc.customer c).request = _ from hget] at hzero
          exact hzero
        rcases hout with hsafe | ⟨m, hm⟩
        · exact hx.flagged hsafe hflag
        · have hmu : m = u := by
            refine h.alone (m := .managerLock) ?_ ?_ (.inr fun d => ?_) (.inr fun d => ?_)
            · rw [hm]
              exact ⟨nofun, rfl⟩
            · rw [hp]
              exact hheld
            · rw [hm]
              nofun
            · rw [hp, show (Loc.customer c).request = _ from hget]
              nofun
          rw [hmu, hp] at hm
          cases hm
    | _ => rfl
  · rw [hloc, Function.update_of_ne hut]
    exact hloose

theorem Office.alone_moved {v : Option T} (hm : Micro (program o.CLERKCOUNT) s v s')
    (hout' : safe s'.val ≠ 0 ∨ ∃ m, s'.loc m = .manager (.senators .unsetWaitOutSide)) (u : T) :
    (s'.loc u).loose = false ∧
      ¬ Woken (program o.CLERKCOUNT) s' .outsideLineCV .managerLock u := by
  -- where the second flag is not raised just now, customers were kept outside before
  have hsame (hsafe : safe s'.val ≠ 0 → safe s.val ≠ 0)
      (hnot : s.loc t ≠ .manager (.senators .unsetSafe)) :
      safe s.val ≠ 0 ∨ ∃ m, s.loc m = .manager (.senators .unsetWaitOutSide) := by
    rcases hout' with hs | ⟨m, hmloc⟩
    · exact .inl (hsafe hs)
    · by_cases hmt : m = t
      · rw [hloc, hmt, Function.update_self] at hmloc
        exact absurd (Loc.next_unsetWaitOutSide hmloc) hnot
      · rw [hloc, Function.update_of_ne hmt] at hmloc
        exact .inr ⟨m, hmloc⟩
  have hkept (hout : safe s.val ≠ 0 ∨ ∃ m, s.loc m = .manager (.senators .unsetWaitOutSide)) :
      (s'.loc u).loose = false ∧
        ¬ Woken (program o.CLERKCOUNT) s' .outsideLineCV .managerLock u :=
    ⟨loose_moved h hx hloc hval hwhy hout u, not_woken h hx hm hout u⟩
  have hval' : safe s'.val = safe (answered o.CLERKCOUNT (s.loc t).request s.val).2 := by rw [hval]
  rcases (s.loc t).flags o.CLERKCOUNT s.val with ⟨hsafe, -, hnot⟩ | ⟨c, hpc, hsafe, -⟩ |
    ⟨hpc, -, -⟩ | ⟨hpc, -, -⟩ | ⟨hpc, hsafe, -⟩
  · exact hkept (hsame (by rw [hval', hsafe]; exact id) hnot)
  · exact hkept (hsame (by rw [hval', hsafe]; exact id) (by rw [hpc]; nofun))
  · refine ⟨?_, fun hu => ?_⟩
    · by_cases hut : u = t
      · rw [hut, hloc, Function.update_self, hpc]
        rfl
      · rw [hloc, Function.update_of_ne hut]
        exact none_loose h hx hpc u
    · rcases woken_micro h.locked hm hu with hwas | ⟨-, -, m, -, -, hreq⟩
      · have hheld : (s.loc t).held .managerLock := by
          rw [hpc]
          exact ⟨nofun, rfl⟩
        exact (h.first .outsideLineCV rfl).none_woken ⟨_, hpc⟩ hheld (by rw [hpc]; nofun) u hwas
      · rcases (s.loc m).wakes_managerLock rfl hreq with ⟨-, hc⟩ | ⟨hpcm, -⟩
        · cases hc
        · have hmt := h.manager_unique (t := m) (u := t) ⟨_, hpcm⟩ ⟨_, hpc⟩
          rw [hmt, hpc] at hpcm
          cases hpcm
  · have hclaim := h.claim (t := t) (by rw [hpc]; nofun)
    rw [hpc] at hclaim
    exact hkept (.inl hclaim.2.2)
  · have hclaim := h.claim (t := t) (by rw [hpc]; nofun)
    rw [hpc] at hclaim
    refine hkept (hsame ?_ (by rw [hpc]; nofun))
    rw [hval', hsafe]
    exact id

end Moved

/-- With the second flag up and the senators called, none is left in their line. -/
theorem Office.no_senator_waits (h : o.Sound s) (hx : o.Exclusive s) {m : T} {p : SenatorDuty}
    (hpc : s.loc m = .manager (.senators p)) (hp : p ≠ .acquire ∧ p ≠ .release ∧
      p ≠ .broadcastSenators) (hsafe : safe s.val ≠ 0) :
    ¬ MV.senatorLineCount.get s.val 0 > 0 := by
  have hheld : (s.loc m).held .managerLock := by
    rw [hpc]
    exact ⟨hp.1, rfl⟩
  have hmwait : ∀ d, (s.loc m).request ≠ .Wait d .managerLock := fun d => by
    rw [hpc]
    exact fun hreq => ManagerPC.never_waits (.senators p) d .managerLock hreq
  have hnone : ∀ u, weight .senatorLineCount 0 (s.loc u) = 0 := by
    intro u
    cases hu : s.loc u with
    | senator c =>
      obtain ⟨me, pc⟩ := c
      -- one that is counted and not waiting would hold the manager's lock
      have halone : (s.loc u).held .managerLock →
          (s.mode u = .running ∨ ∀ d, (s.loc u).request ≠ .Wait d .managerLock) → False := by
        intro hheldu huw
        have hum := h.alone hheldu hheld huw (.inr hmwait)
        rw [hum, hpc] at hu
        cases hu
      cases pc with
      | arrive p' => cases p' with
        | leaveLine b =>
          refine (halone (by rw [hu]; exact ⟨nofun, rfl⟩) (.inr fun d => ?_)).elim
          rw [hu]
          cases b <;> nofun
        | wait =>
          exfalso
          cases hmode : s.mode u with
          | running => exact halone (by rw [hu]; exact ⟨nofun, rfl⟩) (.inl hmode)
          | queued l =>
            have hwoken : Woken (program o.CLERKCOUNT) s .senatorLineCV .managerLock u := by
              rcases h.locked.queued l u hmode with hreq | ⟨d, hreq⟩
              · rw [hu] at hreq
                cases hreq
              · rw [hu] at hreq
                cases hreq
                exact ⟨hmode, by rw [hu]; rfl⟩
            refine (h.first .senatorLineCV rfl).none_woken ⟨_, hpc⟩ hheld ?_ u hwoken
            rw [hpc]
            exact fun heq => hp.2.1 (by injection heq with heq; injection heq)
          | asleep d =>
            have hreq := h.locked.asleep d u hmode
            rw [hu] at hreq
            cases hreq
            rcases hx.asleep hsafe with ⟨v, hv⟩ | hall
            · have hvm := h.manager_unique (t := v) (u := m) ⟨_, hv⟩ ⟨_, hpc⟩
              rw [hvm, hpc] at hv
              exact hp.2.2 (by injection hv with hv; injection hv)
            · exact hall u hmode
        | _ => rfl
      | _ => rfl
    | _ => rfl
  have hcount := h.tallied .senatorLineCount 0 rfl
  rw [Finset.sum_eq_zero fun u _ => hnone u] at hcount
  have hget : MV.senatorLineCount.get s.val 0 = s.val .senatorLineCount 0 :=
    if_pos ⟨le_rfl, Int.zero_lt_one⟩
  rw [hget, hcount]
  omega

/-- The senators' line is emptied by the manager's broadcast, and joined while it is not
safe. -/
theorem Office.asleep_kept (h : o.Sound s) (hx : o.Exclusive s) {t : Option T}
    (hm : Micro (program o.CLERKCOUNT) s t s') (hsafe' : safe s'.val ≠ 0) :
    (∃ m, s'.loc m = .manager (.senators .broadcastSenators)) ∨
      ∀ u, s'.mode u ≠ .asleep .senatorLineCV := by
  -- who is asleep there was so before: going to sleep, one knows that it is not safe
  have hbefore : ∀ u, s'.mode u = .asleep .senatorLineCV → s.mode u = .asleep .senatorLineCV ∧
      ∀ v l, t = some v → (s.loc v).request = .Broadcast .senatorLineCV l →
        s.owner l ≠ some v := by
    intro u hu
    rcases asleep_micro hm hu with ⟨hwas, hnot⟩ | ⟨-, hrun, hval, -, l, hreq, -⟩
    · exact ⟨hwas, fun v l hv hb => hnot v l hv hb ((h.locked.waiters _ u).mpr hwas)⟩
    · have hclaim := h.known u (.inl hrun)
      obtain ⟨me, hpc⟩ := (s.loc u).waits_senatorLine hreq
      rw [hpc] at hclaim
      rw [hval] at hsafe'
      exact absurd hclaim hsafe'
  rcases micro_moves (discipline _) h.locked hm with ⟨hloc, hval⟩ | ⟨v, r, hloc, hval, hwhy⟩
  · rw [hval] at hsafe'
    rcases hx.asleep hsafe' with ⟨m, hmloc⟩ | hall
    · exact .inl ⟨m, by rw [hloc]; exact hmloc⟩
    · exact .inr fun u hu => hall u (hbefore u hu).1
  · have hval' : safe s'.val = safe (answered o.CLERKCOUNT (s.loc v).request s.val).2 :=
      congrArg safe hval
    have hkept (hsafe : safe s.val ≠ 0) :
        (∃ m, s'.loc m = .manager (.senators .broadcastSenators)) ∨
          ∀ u, s'.mode u ≠ .asleep .senatorLineCV := by
      rcases hx.asleep hsafe with ⟨m, hmloc⟩ | hall
      · by_cases hmv : m = v
        · -- the manager calls them all
          subst hmv
          refine .inr fun u hu => ?_
          have hreq : (s.loc m).request = .Broadcast .senatorLineCV .managerLock := by
            rw [hmloc]
            rfl
          have hrun : t = some m ∧ s.mode m = .running := by
            rcases hwhy with ⟨ht, hrun, -⟩ | ⟨l, -, hq | ⟨c, hq⟩⟩
            · exact ⟨ht, hrun⟩
            · cases hreq.symm.trans hq
            · cases hreq.symm.trans hq
          refine (hbefore u hu).2 m .managerLock hrun.1 hreq (h.locked.owner_of_held hrun.2 ?_)
          rw [hmloc]
          exact ⟨nofun, rfl⟩
        · exact .inl ⟨m, by rw [hloc, Function.update_of_ne hmv]; exact hmloc⟩
      · exact .inr fun u hu => hall u (hbefore u hu).1
    rcases (s.loc v).flags o.CLERKCOUNT s.val with ⟨hsafe, -, -⟩ | ⟨c, -, hsafe, -⟩ |
      ⟨hpc, -, -⟩ | ⟨-, hsafe, -⟩ | ⟨-, hsafe, -⟩
    · exact hkept (by rw [← hsafe, ← hval']; exact hsafe')
    · exact hkept (by rw [← hsafe, ← hval']; exact hsafe')
    · refine .inl ⟨v, ?_⟩
      rw [hloc, Function.update_self, hpc]
      rfl
    · exact absurd (hval'.trans hsafe) hsafe'
    · exact hkept (by rw [← hsafe, ← hval']; exact hsafe')

/-- The manager goes to the lines with the first flag up and the second one down. -/
theorem Office.lines_kept (h : o.Sound s) (hx : o.Exclusive s) {t : Option T}
    (hm : Micro (program o.CLERKCOUNT) s t s') {m : T} {k : Kind} {p : LineDuty}
    (hmloc : s'.loc m = .manager (.lines k p)) : flag s'.val ≠ 0 ∧ safe s'.val = 0 := by
  rcases micro_moves (discipline _) h.locked hm with ⟨hloc, hval⟩ | ⟨v, r, hloc, hval, -⟩
  · rw [hloc] at hmloc
    rw [hval]
    exact hx.lines m k p hmloc
  · by_cases hmv : m = v
    · subst hmv
      rw [hloc, Function.update_self] at hmloc
      rcases Loc.next_lines hmloc with hpc | ⟨k', q', hpc⟩
      · have hclaim := h.known m (.inr fun c l => by rw [hpc]; nofun)
        rw [hpc] at hclaim hval
        rw [hval]
        refine ⟨?_, ?_⟩
        · show flag s.val ≠ 0
          rw [show flag s.val = 1 from hclaim.1]
          decide
        · by_contra hsafe
          exact no_senator_waits h hx hpc ⟨nofun, nofun, nofun⟩ hsafe hclaim.2
      · have hbefore := hx.lines m k' q' hpc
        rw [hval, hpc]
        cases q' <;> exact hbefore
    · rw [hloc, Function.update_of_ne hmv] at hmloc
      have hbefore := hx.lines m k p hmloc
      have hval' : s'.val = (answered o.CLERKCOUNT (s.loc v).request s.val).2 := hval
      rw [hval']
      have hnot : ∀ {q}, s.loc v ≠ .manager (.senators q) := fun hv =>
        hmv (h.manager_unique ⟨_, hmloc⟩ ⟨_, hv⟩)
      rcases (s.loc v).flags o.CLERKCOUNT s.val with ⟨hsafe, hflag, -⟩ | ⟨c, hpc, -⟩ | ⟨hpc, -⟩ |
        ⟨hpc, -⟩ | ⟨hpc, -⟩
      · rw [hsafe, hflag]
        exact hbefore
      · exact absurd hpc hnot
      · exact absurd hpc hnot
      · exact absurd hpc hnot
      · exact absurd hpc hnot

/-- **It goes on**, through every piece of the server's work. -/
theorem Office.exclusive_micro (h : o.Sound s) (hx : o.Exclusive s) {t : Option T}
    (hm : Micro (program o.CLERKCOUNT) s t s') : o.Exclusive s' := by
  have hmoves := micro_moves (discipline _) h.locked hm
  refine ⟨?_, ?_, ?_, ?_, asleep_kept h hx hm, fun m k p => lines_kept h hx hm⟩
  · rcases hmoves with ⟨-, hval⟩ | ⟨v, r, hloc, hval, -⟩
    · rw [hval]
      exact hx.flagged
    · exact flag_moved h hx hloc hval
  · rcases hmoves with ⟨hloc, hval⟩ | ⟨v, r, hloc, hval, -⟩
    · rw [hloc, hval]
      exact hx.inside
    · exact inside_moved h hx hloc hval
  · rcases hmoves with ⟨hloc, -⟩ | ⟨v, r, hloc, hval, -⟩
    · rw [hloc]
      exact hx.past
    · exact past_moved h hx hloc hval
  · rcases hmoves with ⟨hloc, hval⟩ | ⟨v, r, hloc, hval, hwhy⟩
    · rw [hloc, hval]
      intro hout u
      exact ⟨(hx.alone hout u).1, not_woken h hx hm hout u⟩
    · exact alone_moved h hx hloc hval (hwhy.imp (fun hw => hw.2) id) hm

/-- What holds in every state of the day. -/
theorem Office.exclusive (h : Reachable o.Step o.init s) : o.Sound s ∧ o.Exclusive s :=
  reachable_of_micro (I := fun s => o.Sound s ∧ o.Exclusive s)
    (fun _ _ _ hs hm => ⟨sound_micro hs.1 hm, exclusive_micro hs.1 hs.2 hm⟩) h
    ⟨sound_init, exclusive_init⟩ settled_init

/-- **Senators have the office to themselves.** While a senator is inside no customer is past its
check; and the four counts under the manager's lock are the numbers of those they count, at any
moment. -/
theorem Office.senators_alone (h : Reachable o.Step o.init s) :
    (∀ t c, s.loc t = .senator c → c.pc.inside = true →
      ∀ u d, s.loc u = .customer d → d.pastCheck = false) ∧
    ∀ x, x = .customersPresentCount ∨ x = .passportOfficeOutsideLineCount ∨
        x = .senatorLineCount ∨ x = .senatorPresentCount →
      s.val x 0 = (Finset.univ.filter fun t => (s.loc t).counts x 0 = true).card := by
  obtain ⟨hs, hx⟩ := exclusive h
  refine ⟨fun t c hc hin u d hd => ?_, fun x hcount => ?_⟩
  · have hloose := (hx.alone (.inl (hx.inside t c hc hin)) u).1
    rw [hd] at hloose
    exact (Bool.or_eq_false_iff.mp hloose).1
  · rw [hs.tallied x 0 (by rcases hcount with rfl | rfl | rfl | rfl <;> rfl)]
    unfold weight
    rw [Finset.sum_boole]

end Exclusive

/-- A manager, a senator and a customer. -/
def senatorDay : Office (Fin 3) where
  process t := if t = 0 then .manager else if t = 1 then .senator 0 0 else .customer 0 0
  STARTPASSPORT := false
  manager_unique t u := by
    revert t u
    decide

/-- The senator finds it unsafe and waits, the manager calls it in, and the customer goes
outside. -/
def senatorCalls : List (Fin 3 × Nat) :=
  List.replicate 9 (1, 0) ++ List.replicate 9 (0, 0) ++ List.replicate 6 (1, 0) ++
    List.replicate 15 (2, 0)

/-- A senator that is counted inside. -/
def Loc.senatorInside : Loc → Bool
  | .senator c => c.pc.inside
  | _ => false

theorem Loc.senatorInside_iff {l : Loc} :
    l.senatorInside = true ↔ ∃ c, l = .senator c ∧ c.pc.inside = true := by
  cases l <;> simp [senatorInside]

theorem senatorDay_alone : ∃ s, Reachable senatorDay.Step senatorDay.init s ∧
    (∃ c, s.loc 1 = .senator c ∧ c.pc.inside = true) ∧
    (∀ u d, s.loc u = .customer d → d.pastCheck = false) ∧
    s.val .passportOfficeOutsideLineCount 0 =
      (Finset.univ.filter fun t => (s.loc t).counts .passportOfficeOutsideLineCount 0 = true).card := by
  have hrun : (execute senatorDay.step senatorDay.init senatorCalls).any (fun s =>
      (s.loc 1).senatorInside) = true := by
    decide +kernel
  obtain ⟨s, hs, hin⟩ := (Option.any_eq_true _ _).mp hrun
  have hreach : Reachable senatorDay.Step senatorDay.init s :=
    ⟨_, path_of_execute (fun _ _ _ => id) hs⟩
  obtain ⟨halone, hcounts⟩ := Office.senators_alone hreach
  obtain ⟨c, hc, hinside⟩ := Loc.senatorInside_iff.mp hin
  exact ⟨s, hreach, ⟨c, hc, hinside⟩, halone 1 c hc hinside, hcounts _ (.inr (.inl rfl))⟩

end Nachos.Passport

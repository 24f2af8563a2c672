import Mathlib.Algebra.Order.BigOperators.Group.Finset
import Nachos.Lib.Order
import Nachos.Passport.Variables

/-!
# The passport office: what holds all day

Each process stays in its program, the server agrees with the programs on the locks, the
variables say what the programs know and count, and whoever the manager wakes gets the
manager's lock before it does (`Office.Sound`).
-/

namespace Nachos.Passport

open Lib.Monitor

set_option linter.unusedSectionVars false

/-! ### The processes and their programs -/

/-- The location is one of the program of the process. -/
def Process.runs : Process → Loc → Prop
  | .customer _ _, .customer _ => True
  | .senator _ _, .senator _ => True
  | .clerk k, .clerk c => c.kind = k
  | .manager, .manager _ => True
  | .stopPass, .stopPass _ => True
  | _, _ => False

theorem Clerk.next_kind (n : Nat) (c : Clerk) (a : Int) (r : Nat) :
    (c.next n a r).kind = c.kind := by
  obtain ⟨k, myLine, money, fromLine, SSN, pc⟩ := c
  cases pc with
  | draw p | serve p =>
    simp only [next]
    repeat' split
    all_goals rfl
  | senator p => cases p with
    | release waiting => cases waiting <;> rfl
    | _ => rfl
  | call p => cases p with
    | onBreak p => cases p with
      | releaseEnd => rfl
      | _ =>
        simp only [next, nextCall]
        split <;> rfl
    | getBribeLineCount | getLineCount =>
      simp only [next, nextCall]
      split <;> rfl
    | _ => rfl
  | exited => rfl

theorem Process.runs_start (p : Process) : p.runs p.start := by
  cases p with
  | clerk k => rfl
  | _ => trivial

/-- A process stays in its program. -/
theorem Process.runs_next {p : Process} {loc : Loc} (h : p.runs loc) (n : Nat) (a : Int) (r : Nat) :
    p.runs (loc.next n a r) := by
  cases p <;> cases loc <;> first | exact h.elim | trivial | exact (Clerk.next_kind n _ a r).trans h

def Loc.IsManager (p : Loc) : Prop := ∃ pc, p = .manager pc

/-! ### Who wakes whom under the manager's lock -/

theorem Visit.wakes (w : Visit) {SSN : Int} {c : CV} {m : Lock}
    (h : w.request SSN = .Signal c m ∨ w.request SSN = .Broadcast c m) :
    ∃ myLine p, w.pc = .talk myLine p ∧ c = .clerkCV w.kind myLine := by
  obtain ⟨k, bribe, pc⟩ := w
  cases pc with
  | line p => cases p with
    | join myLine b | leave myLine b => cases b <;> rcases h with h | h <;> cases h
    | _ => rcases h with h | h <;> cases h
  | unlocked myLine p => cases p <;> rcases h with h | h <;> cases h
  | talk myLine p => cases p with
    | acquire =>
      have hlock : acquireClerkLock k myLine = .Signal c m ∨
        acquireClerkLock k myLine = .Broadcast c m := h
      unfold acquireClerkLock at hlock
      split at hlock <;> rcases hlock with h | h <;> cases h
    | _ => rcases h with h | h <;> cases h <;> exact ⟨_, _, rfl, rfl⟩

/-- Those who wait under the manager's lock are woken by the manager. -/
theorem Loc.wakes_managerLock (p : Loc) {c : CV} {m : Lock} (hc : c.lock = .managerLock)
    (h : p.request = .Signal c m ∨ p.request = .Broadcast c m) :
    (p = .manager (.senators .broadcastSenators) ∧ c = .senatorLineCV) ∨
      (p = .manager (.senators .broadcastOutside) ∧ c = .outsideLineCV) := by
  cases p with
  | customer c' =>
    obtain ⟨me, past, pc⟩ := c'
    cases pc with
    | visit w =>
      obtain ⟨i, p, -, rfl⟩ := w.wakes h
      cases hc
    | checkIn p => cases p with
      | present b => cases b <;> rcases h with h | h <;> cases h
      | _ => rcases h with h | h <;> cases h
    | draw p => cases p <;> rcases h with h | h <;> cases h
    | check p | recheck _ _ _ p => cases p with
      | goOutside b | joinLine b | goInside b | leaveLine b =>
        cases b <;> rcases h with h | h <;> cases h
      | _ => rcases h with h | h <;> cases h
    | checkOut p => cases p with
      | present b | checkedOut b => cases b <;> rcases h with h | h <;> cases h
      | _ => rcases h with h | h <;> cases h
    | exited => rcases h with h | h <;> cases h
  | senator c' =>
    obtain ⟨me, pc⟩ := c'
    cases pc with
    | visit w =>
      obtain ⟨i, p, -, rfl⟩ := w.wakes h
      cases hc
    | draw p => cases p <;> rcases h with h | h <;> cases h
    | arrive p => cases p with
      | joinLine b | leaveLine b | enter b => cases b <;> rcases h with h | h <;> cases h
      | _ => rcases h with h | h <;> cases h
    | leave p => cases p with
      | present b | checkedOut b => cases b <;> rcases h with h | h <;> cases h
      | _ => rcases h with h | h <;> cases h
    | exited => rcases h with h | h <;> cases h
  | clerk c' =>
    obtain ⟨k, myLine, money, fromLine, SSN, pc⟩ := c'
    cases pc with
    | draw p => cases p <;> rcases h with h | h <;> cases h
    | senator p => cases p <;> rcases h with h | h <;> cases h
    | call p => cases p with
      | acquireClerk =>
        have hlock : acquireClerkLock k myLine = .Signal c m ∨
          acquireClerkLock k myLine = .Broadcast c m := h
        unfold acquireClerkLock at hlock
        split at hlock <;> rcases hlock with h | h <;> cases h
      | onBreak p => cases p <;> rcases h with h | h <;> cases h
      | _ => rcases h with h | h <;> cases h <;> cases hc
    | serve p => cases p <;> rcases h with h | h <;> cases h <;> cases hc
    | exited => rcases h with h | h <;> cases h
  | manager pc =>
    cases pc with
    | senators p => cases p with
      | broadcastSenators =>
        rcases h with h | h <;> cases h
        exact .inl ⟨rfl, rfl⟩
      | broadcastOutside =>
        rcases h with h | h <;> cases h
        exact .inr ⟨rfl, rfl⟩
      | _ => rcases h with h | h <;> cases h
    | lines _ p | wakeUp _ p | wakeAll _ p =>
      cases p <;> rcases h with h | h <;> cases h <;> cases hc
    | endOfDay p => cases p <;> rcases h with h | h <;> cases h
    | exited => rcases h with h | h <;> cases h
  | stopPass done => cases done <;> rcases h with h | h <;> cases h

/-- What a call does not write stays. -/
theorem get_answered (n : Nat) (q : Request) {x : MV} (val : MV → Int → Int) (i : Int)
    (h : ∀ j v, q ≠ .Set x j v) : x.get (answered n q val).2 i = x.get val i := by
  cases q with
  | Set y j v => exact get_set_of_ne n fun hxy : x = y => h j v (by rw [hxy])
  | _ => rfl

theorem ManagerPC.never_waits (pc : ManagerPC) (c : CV) (m : Lock) : pc.request ≠ .Wait c m := by
  cases pc with
  | exited => nofun
  | senators p | lines _ p | wakeUp _ p | endOfDay p | wakeAll _ p => cases p <;> nofun

/-- The senators' line is where senators wait that have found it unsafe. -/
theorem Loc.waits_senatorLine (p : Loc) {l : Lock} (h : p.request = .Wait .senatorLineCV l) :
    ∃ me, p = .senator ⟨me, .arrive .wait⟩ := by
  have hvisit : ∀ (w : Visit) (SSN : Int), w.request SSN ≠ .Wait .senatorLineCV l := by
    intro w SSN hw
    have hin := w.inOrder SSN
    rw [hw] at hin
    obtain ⟨rfl, hheld⟩ := hin
    exact w.not_held_managerLock hheld
  cases p with
  | senator c =>
    obtain ⟨me, pc⟩ := c
    cases pc with
    | arrive p => cases p with
      | wait => exact ⟨me, rfl⟩
      | joinLine b | leaveLine b | enter b => cases b <;> cases h
      | _ => cases h
    | draw p => cases p <;> cases h
    | visit w => exact absurd h (hvisit w _)
    | leave p => cases p with
      | present b | checkedOut b => cases b <;> cases h
      | _ => cases h
    | exited => cases h
  | customer c =>
    obtain ⟨me, past, pc⟩ := c
    cases pc with
    | visit w => exact absurd h (hvisit w _)
    | checkIn p => cases p with
      | present b => cases b <;> cases h
      | _ => cases h
    | draw p => cases p <;> cases h
    | check p | recheck _ _ _ p => cases p with
      | goOutside b | joinLine b | goInside b | leaveLine b => cases b <;> cases h
      | _ => cases h
    | checkOut p => cases p with
      | present b | checkedOut b => cases b <;> cases h
      | _ => cases h
    | exited => cases h
  | clerk c =>
    obtain ⟨k, myLine, money, fromLine, SSN, pc⟩ := c
    cases pc with
    | draw p => cases p <;> cases h
    | senator p => cases p <;> cases h
    | call p => cases p with
      | acquireClerk =>
        have hlock : acquireClerkLock k myLine = .Wait .senatorLineCV l := h
        unfold acquireClerkLock at hlock
        split at hlock <;> cases hlock
      | onBreak p => cases p <;> cases h
      | _ => cases h
    | serve p => cases p <;> cases h
    | exited => cases h
  | manager pc => exact absurd h (pc.never_waits _ _)
  | stopPass done => cases done <;> cases h

theorem Loc.isManager_next (n : Nat) (p : Loc) (a : Int) (r : Nat) :
    p.IsManager ↔ (p.next n a r).IsManager := by
  cases p with
  | manager pc => exact ⟨fun _ => ⟨_, rfl⟩, fun _ => ⟨_, rfl⟩⟩
  | _ =>
    constructor
    · rintro ⟨pc, hpc⟩
      cases hpc
    · rintro ⟨pc, hpc⟩
      cases hpc

/-- The manager wakes those outside, and the senators, at the end of `managerSenatorCheck`. -/
theorem waker (n : Nat) {c : CV} (hc : c.lock = .managerLock) :
    Waker (program n) Loc.held c .managerLock Loc.IsManager
      (fun p => p = .manager (.senators .release)) where
  only p m h := by
    refine ⟨?_, ?_⟩
    · rcases p.wakes_managerLock hc h with ⟨rfl, -⟩ | ⟨rfl, -⟩
      · exact ⟨_, rfl⟩
      · exact ⟨_, rfl⟩
    · have hin := p.inOrder
      rcases h with h | h
      · rw [show p.request = _ from h] at hin
        exact hin.1.trans hc
      · rw [show p.request = _ from h] at hin
        exact hin.1.trans hc
  woke p m r h := by
    rcases p.wakes_managerLock hc h with ⟨rfl, -⟩ | ⟨rfl, -⟩
    · rfl
    · rfl
  next p a r := p.isManager_next n a r
  stays p a r _ hheld _ hfresh := by
    subst hfresh
    exact absurd hheld.2 nofun
  awake p d hp h := by
    obtain ⟨pc, rfl⟩ := hp
    exact pc.never_waits d _ h

/-! ### What holds all day -/

/-- **What holds of every state of an office**: each process is in its program, the server
agrees with them on the locks, what they know is so, the counts count, and those that the
manager woke get its lock before it. -/
structure Office.Sound {T : Type} [DecidableEq T] [Fintype T] (o : Office T) (s : State T) :
    Prop where
  runs : ∀ t, (o.process t).runs (s.loc t)
  locked : Locked (program o.CLERKCOUNT) Loc.held CV.lock s
  known : Known (program o.CLERKCOUNT) Loc.claim s
  tallied : Tallied MV.Counted weight s
  first : ∀ c : CV, c.lock = .managerLock →
    First (program o.CLERKCOUNT) Loc.held c .managerLock Loc.IsManager
      (fun p => p = .manager (.senators .release)) s

section Sound

variable {T : Type} [DecidableEq T] [Fintype T] {o : Office T} {s s' : State T}

theorem Office.Sound.manager_unique (h : o.Sound s) {t u : T} (ht : (s.loc t).IsManager)
    (hu : (s.loc u).IsManager) : t = u := by
  have hmanager : ∀ t, (s.loc t).IsManager → o.process t = .manager := by
    rintro t ⟨pc, hpc⟩
    have hruns := h.runs t
    rw [hpc] at hruns
    cases hp : o.process t with
    | manager => rfl
    | _ =>
      rw [hp] at hruns
      exact hruns.elim
  exact o.manager_unique t u (hmanager t ht) (hmanager u hu)

theorem Process.start_claim (p : Process) (val : MV → Int → Int) : p.start.claim val := by
  cases p <;> trivial

theorem Process.start_weight (p : Process) {x : MV} {i : Int} : weight x i p.start = 0 := by
  cases p <;> cases x <;> rfl

theorem Office.sound_init : o.Sound o.init where
  runs t := (o.process t).runs_start
  locked := Locked.init _ _ fun t => (o.process t).start_held
  known t _ := (o.process t).start_claim _
  tallied x i hx := by
    have hzero : ∑ t, weight x i (o.init.loc t) = 0 :=
      Finset.sum_eq_zero fun t _ => (o.process t).start_weight
    rw [hzero]
    cases x <;> first | rfl | exact hx.elim
  first _ _ := First.init

theorem Office.settled_init : o.init.Settled := fun _ _ => rfl

/-- **It goes on holding**, through every piece of the server's work. -/
theorem Office.sound_micro (h : o.Sound s) {t : Option T}
    (hm : Micro (program o.CLERKCOUNT) s t s') : o.Sound s' where
  runs := everywhere_micro (Q := fun t p => (o.process t).runs p)
    (fun _ _ a r hp => Process.runs_next hp _ a r) h.runs hm
  locked := locked_micro (discipline _) h.locked hm
  known := known_micro (claims _) h.locked h.known hm
  tallied := tallied_micro (tallies _) h.locked h.known h.tallied hm
  first c hc := first_micro (discipline _) (waker _ hc) hc (fun _ _ => h.manager_unique) h.locked
    (h.first c hc) hm

/-- What is counted is not negative, and if it is 0 nobody is counted. -/
theorem Office.Sound.none_counted (h : o.Sound s) {x : MV} {i : Int} (hx : x.Counted i)
    (hzero : ¬ x.get s.val i > 0) (t : T) : (s.loc t).counts x i = false := by
  have hget : x.get s.val i = s.val x i := if_pos hx.range
  have hsum : ∑ u, weight x i (s.loc u) ≤ 0 := by
    rw [← h.tallied x i hx, ← hget]
    omega
  have hnonneg : ∀ u, 0 ≤ weight x i (s.loc u) := fun u => by
    unfold weight
    split <;> omega
  have hone := Finset.single_le_sum (fun u _ => hnonneg u) (Finset.mem_univ t)
  have hle : weight x i (s.loc t) ≤ 0 := le_trans hone hsum
  unfold weight at hle
  split at hle
  · omega
  · rename_i hnot
    exact Bool.eq_false_iff.mpr hnot

/-- Two threads do not hold one lock, if neither has gone to sleep with it. -/
theorem Office.Sound.alone (h : o.Sound s) {t u : T} {m : Lock} (ht : (s.loc t).held m)
    (hu : (s.loc u).held m)
    (htw : s.mode t = .running ∨ ∀ c, (s.loc t).request ≠ .Wait c m)
    (huw : s.mode u = .running ∨ ∀ c, (s.loc u).request ≠ .Wait c m) : t = u :=
  h.locked.holds_unique ⟨ht, htw⟩ ⟨hu, huw⟩

end Sound

end Nachos.Passport

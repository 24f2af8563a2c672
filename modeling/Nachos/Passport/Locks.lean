import Nachos.Passport.Office

/-!
# The passport office: who holds which lock

What each program holds at each of its server calls. A customer that goes on to the counter
after it released the line lock holds nothing there, and its second `Release` is refused.
-/

namespace Nachos.Passport

open Lib.Monitor

/-- Everything between an `Acquire` and the end holds one lock. -/
def Draw.held (l : Lock) (p : Draw) (m : Lock) : Prop := p ≠ .acquire ∧ m = l

def CheckIn.held (p : CheckIn) (m : Lock) : Prop := p ≠ .acquire ∧ m = .managerLock

def Check.held (p : Check) (m : Lock) : Prop := p ≠ .acquire ∧ m = .managerLock

def CheckOut.held (p : CheckOut) (m : Lock) : Prop := p ≠ .acquire ∧ m = .managerLock

def Arrive.held (p : Arrive) (m : Lock) : Prop := p ≠ .acquire ∧ m = .managerLock

def SenatorCheck.held (p : SenatorCheck) (m : Lock) : Prop := p ≠ .acquire ∧ m = .managerLock

/-- A visit holds the line lock, then nothing, then the clerk's lock. -/
def Visit.held (v : Visit) (m : Lock) : Prop :=
  match v.pc with
  | .line p => p ≠ .acquire ∧ m = .lineLock v.kind
  | .unlocked _ _ => False
  | .talk myLine p =>
    match p with
    | .setBusy | .releaseLine => m = .lineLock v.kind
    | .acquire => False
    | _ => m = .clerkLock v.kind myLine

def Customer.held (c : Customer) (m : Lock) : Prop :=
  match c.pc with
  | .checkIn p => p.held m
  | .draw p => p.held .SSNLock m
  | .check p => p.held m
  | .visit v => v.held m
  | .recheck _ _ _ p => p.held m
  | .checkOut p => p.held m
  | .exited => False

def Senator.held (c : Senator) (m : Lock) : Prop :=
  match c.pc with
  | .draw p => p.held .SSNLock m
  | .arrive p => p.held m
  | .visit v => v.held m
  | .leave p => p.held m
  | .exited => False

/-- A clerk that has called a customer takes its own lock before it releases the line lock. -/
def Clerk.held (c : Clerk) (m : Lock) : Prop :=
  match c.pc with
  | .draw p => p.held (.myLineLock c.kind) m
  | .senator p => p.held m
  | .call .acquire => False
  | .call .releaseLine => m = .lineLock c.kind ∨ m = .clerkLock c.kind c.myLine
  | .call _ => m = .lineLock c.kind
  | .serve .setApplicationCompletion => False
  | .serve _ => m = .clerkLock c.kind c.myLine
  | .exited => False

def ManagerPC.held (p : ManagerPC) (m : Lock) : Prop :=
  match p with
  | .senators p => p ≠ .acquire ∧ m = .managerLock
  | .lines k p => p ≠ .acquire ∧ m = .lineLock k
  | .wakeUp k p => p ≠ .acquire ∧ m = .lineLock k
  | .endOfDay p => p ≠ .acquire ∧ m = .managerLock
  | .wakeAll k p => p ≠ .acquire ∧ m = .lineLock k
  | .exited => False

def Loc.held (p : Loc) (m : Lock) : Prop :=
  match p with
  | .customer c => c.held m
  | .senator c => c.held m
  | .clerk c => c.held m
  | .manager pc => pc.held m
  | .stopPass _ => False

section Bump

variable (b : Bump) (x : MV) (i d : Int) (H : Lock → Prop) (m : Lock)

/-- A counted change is made under the lock. -/
@[simp] theorem Bump.inOrder : (b.request x i d).InOrder CV.lock H := by
  cases b <;> trivial

@[simp] theorem Bump.after : (b.request x i d).after H m ↔ H m := by
  cases b <;> rfl

end Bump

@[simp] theorem lock_lineCV (k : Kind) (bribe : Bool) (myLine : Int) :
    (Visit.lineCV k bribe myLine).lock = .lineLock k := by
  cases bribe <;> rfl

theorem inOrder_acquireClerkLock (k : Kind) (i : Int) {H : Lock → Prop} (h : ¬ H (.clerkLock k i)) :
    (acquireClerkLock k i).InOrder CV.lock H := by
  unfold acquireClerkLock
  split
  · exact h
  · trivial

theorem Draw.inOrder (p : Draw) (l : Lock) (x : MV) (drawn : Int) :
    (p.request l x drawn).InOrder CV.lock (p.held l) := by
  cases p <;> simp [request, held]

theorem CheckIn.inOrder (p : CheckIn) : p.request.InOrder CV.lock p.held := by
  cases p <;> simp [request, held]

theorem Check.inOrder (p : Check) : p.request.InOrder CV.lock p.held := by
  cases p <;> simp [request, held, CV.lock]

theorem CheckOut.inOrder (p : CheckOut) (x : MV) : (p.request x).InOrder CV.lock p.held := by
  cases p <;> simp [request, held]

theorem Arrive.inOrder (p : Arrive) : p.request.InOrder CV.lock p.held := by
  cases p <;> simp [request, held, CV.lock]

theorem SenatorCheck.inOrder (p : SenatorCheck) : p.request.InOrder CV.lock p.held := by
  cases p <;> simp [request, held]

theorem Visit.inOrder (v : Visit) (SSN : Int) : (v.request SSN).InOrder CV.lock v.held := by
  obtain ⟨k, bribe, pc⟩ := v
  cases pc with
  | line p => cases p <;> simp [request, held]
  | unlocked myLine p => cases p <;> simp [request]
  | talk myLine p =>
    cases p with
    | acquire => exact inOrder_acquireClerkLock k myLine nofun
    | _ => simp [request, held, CV.lock]

theorem Customer.inOrder (c : Customer) : c.request.InOrder CV.lock c.held := by
  obtain ⟨me, past, pc⟩ := c
  cases pc with
  | checkIn p => exact p.inOrder
  | draw p => exact p.inOrder _ _ _
  | check p => exact p.inOrder
  | visit v => exact v.inOrder _
  | recheck k bribe myLine p => exact p.inOrder
  | checkOut p => exact p.inOrder _
  | exited => trivial

theorem Senator.inOrder (c : Senator) : c.request.InOrder CV.lock c.held := by
  obtain ⟨me, pc⟩ := c
  cases pc with
  | draw p => exact p.inOrder _ _ _
  | arrive p => exact p.inOrder
  | visit v => exact v.inOrder _
  | leave p => exact p.inOrder _
  | exited => trivial

theorem Clerk.inOrder (c : Clerk) : c.request.InOrder CV.lock c.held := by
  obtain ⟨k, myLine, money, fromLine, SSN, pc⟩ := c
  cases pc with
  | draw p => exact p.inOrder _ _ _
  | senator p => exact p.inOrder
  | call p =>
    cases p with
    | acquireClerk => exact inOrder_acquireClerkLock k myLine (by simp [held])
    | onBreak p => cases p <;> simp [request, held, Break.request, CV.lock]
    | _ => simp [request, held, CV.lock]
  | serve p => cases p <;> simp [request, held, CV.lock]
  | exited => trivial

theorem ManagerPC.inOrder (p : ManagerPC) : p.request.InOrder CV.lock p.held := by
  cases p with
  | senators p => cases p <;> simp [request, held, CV.lock]
  | lines k p => cases p <;> simp [request, held, CV.lock]
  | wakeUp k p => cases p <;> simp [request, held, CV.lock]
  | endOfDay p => cases p <;> simp [request, held]
  | wakeAll k p => cases p <;> simp [request, held, CV.lock]
  | exited => trivial

theorem Loc.inOrder (p : Loc) : p.request.InOrder CV.lock p.held := by
  cases p with
  | customer c => exact c.inOrder
  | senator c => exact c.inOrder
  | clerk c => exact c.inOrder
  | manager pc => exact pc.inOrder
  | stopPass done => cases done <;> trivial

/-! ### What is held after a call -/

theorem Draw.after_some {p q : Draw} (h : p.next = some q) (l : Lock) (x : MV) (drawn : Int)
    (m : Lock) : q.held l m ↔ (p.request l x drawn).after (p.held l) m := by
  cases p <;> cases h <;> simp [request, held]

theorem Draw.after_none {p : Draw} (h : p.next = none) (l : Lock) (x : MV) (drawn : Int)
    (m : Lock) : ¬ (p.request l x drawn).after (p.held l) m := by
  cases p <;> simp_all [request, held, next]

theorem CheckIn.after_some {p q : CheckIn} {a : Int} (h : p.next a = some q) (m : Lock) :
    q.held m ↔ p.request.after p.held m := by
  cases p with
  | present b => cases b <;> cases h <;> simp [request, held]
  | _ => cases h <;> simp [request, held]

theorem CheckIn.after_none {p : CheckIn} {a : Int} (h : p.next a = none) (m : Lock) :
    ¬ p.request.after p.held m := by
  cases p <;> simp_all [request, held, next]

theorem CheckOut.after_some {p q : CheckOut} {a : Int} (h : p.next a = some q) (x : MV) (m : Lock) :
    q.held m ↔ (p.request x).after p.held m := by
  cases p with
  | present b => cases b <;> cases h <;> simp [request, held]
  | checkedOut b => cases b <;> cases h <;> simp [request, held]
  | _ => cases h <;> simp [request, held]

theorem CheckOut.after_none {p : CheckOut} {a : Int} (h : p.next a = none) (x : MV) (m : Lock) :
    ¬ (p.request x).after p.held m := by
  cases p <;> simp_all [request, held, next]

theorem Check.after_some {p q : Check} {a : Int} (h : p.next a = some q) (m : Lock) :
    q.held m ↔ p.request.after p.held m := by
  cases p with
  | goOutside b => cases b <;> cases h <;> simp [request, held]
  | joinLine b => cases b <;> cases h <;> simp [request, held]
  | goInside b => cases b <;> cases h <;> simp [request, held]
  | leaveLine b => cases b <;> cases h <;> simp [request, held]
  | getWaitOutSide =>
    by_cases ha : a = 0 <;> simp [next, ha] at h <;> subst h <;> simp [request, held]
  | _ => cases h <;> simp [request, held]

theorem Check.after_none {p : Check} {a : Int} (h : p.next a = none) (m : Lock) :
    ¬ p.request.after p.held m := by
  cases p with
  | release present => simp [request, held]
  | getWaitOutSide => by_cases ha : a = 0 <;> simp [next, ha] at h
  | _ => cases h

theorem Arrive.after_some {p q : Arrive} {a : Int} (h : p.next a = some q) (m : Lock) :
    q.held m ↔ p.request.after p.held m := by
  cases p with
  | joinLine b => cases b <;> cases h <;> simp [request, held]
  | leaveLine b => cases b <;> cases h <;> simp [request, held]
  | enter b => cases b <;> cases h <;> simp [request, held]
  | getSafe => by_cases ha : a = 0 <;> simp [next, ha] at h <;> subst h <;> simp [request, held]
  | _ => cases h <;> simp [request, held]

theorem Arrive.after_none {p : Arrive} {a : Int} (h : p.next a = none) (m : Lock) :
    ¬ p.request.after p.held m := by
  cases p with
  | release => simp [request, held]
  | getSafe => by_cases ha : a = 0 <;> simp [next, ha] at h
  | _ => cases h

/-- The locks at the cut that an outcome leads to. -/
def Outcome.held (k : Kind) (bribe : Bool) (m : Lock) : Outcome → Prop
  | .at pc => (Visit.mk k bribe pc).held m
  | _ => False

theorem after_acquireClerkLock {k : Kind} {i : Int} (h : acquireClerkLock k i ≠ .Exit)
    (H : Lock → Prop) (m : Lock) :
    (acquireClerkLock k i).after H m ↔ m = .clerkLock k i ∨ H m := by
  unfold acquireClerkLock at h ⊢
  split
  · rfl
  · rename_i hout
    exact absurd (if_neg hout) h

theorem picked_ne (n i : Nat) (myLine lineSize : Int) :
    Visit.picked n i myLine lineSize ≠ .acquire := by
  unfold Visit.picked
  split <;> nofun

theorem Visit.after (n : Nat) (v : Visit) (SSN a : Int) (r : Nat) (h : v.request SSN ≠ .Exit)
    (m : Lock) : (v.next n a r).held v.kind v.bribe m ↔ (v.request SSN).after v.held m := by
  obtain ⟨k, bribe, pc⟩ := v
  cases pc with
  | line p =>
    cases p with
    | acquire => simp [next, Line.next, Outcome.held, picked_ne, request, held]
    | getCount i myLine lineSize => simp [next, Line.next, Outcome.held, request, held]
    | getState i myLine lineSize temp =>
      simp only [next, Line.next]
      split <;> simp [Outcome.held, picked_ne, request, held]
    | getMyState myLine =>
      simp only [next, Line.next]
      split <;> simp [Outcome.held, request, held]
    | join myLine b => cases b <;> simp [next, Line.next, Outcome.held, request, held]
    | wait myLine => simp [next, Line.next, Outcome.held, request, held]
    | leave myLine b => cases b <;> simp [next, Line.next, Outcome.held, request, held]
    | look myLine =>
      simp only [next, Line.next]
      split <;> simp [Outcome.held, request, held]
    | release myLine => simp [next, Line.next, Outcome.held, request, held]
  | unlocked myLine p =>
    cases p <;> simp [next, Outcome.held, request, held]
  | talk myLine p =>
    cases p with
    | acquire =>
      refine Iff.trans ?_ (after_acquireClerkLock h _ m).symm
      simp [next, Talk.next, Outcome.held, held]
    | wait => cases k <;> simp [next, Talk.next, Outcome.held, request, held]
    | getPicture =>
      simp only [next, Talk.next]
      split <;> simp [Outcome.held, request, held]
    | getRejection =>
      simp only [next, Talk.next]
      split <;> simp [Outcome.held, request, held]
    | _ => simp [next, Talk.next, Outcome.held, request, held]

theorem Customer.held_choose (c : Customer) (r : Nat) (m : Lock) : ¬ (c.choose r).held m := by
  unfold choose
  split <;> simp [held, interaction, Visit.held, CheckOut.held]

theorem Customer.after (n : Nat) (c : Customer) (a : Int) (r : Nat) (h : c.request ≠ .Exit)
    (m : Lock) : (c.next n a r).held m ↔ c.request.after c.held m := by
  obtain ⟨me, past, pc⟩ := c
  cases pc with
  | checkIn p =>
    simp only [next]
    split
    · rename_i q hq
      exact CheckIn.after_some hq m
    · rename_i hq
      exact iff_of_false (by simp [held, Draw.held]) (CheckIn.after_none hq m)
  | draw p =>
    simp only [next]
    split
    · rename_i q hq
      exact Draw.after_some hq _ _ _ m
    · rename_i hq
      exact iff_of_false (by simp [held, Check.held]) (Draw.after_none hq _ _ _ m)
  | check p =>
    simp only [next]
    split
    · rename_i q hq
      exact Check.after_some hq m
    · rename_i hq
      exact iff_of_false (held_choose _ r m) (Check.after_none hq m)
  | visit v =>
    have hv := v.after n me.SSN a r h m
    simp only [next]
    split
    · rename_i pc hpc
      rw [hpc] at hv
      exact hv
    · rename_i myLine hpc
      rw [hpc] at hv
      exact iff_of_false (by simp [held, Check.held]) fun hm => hv.mpr hm
    · rename_i result hpc
      rw [hpc] at hv
      exact iff_of_false (by simp [held, Check.held]) fun hm => hv.mpr hm
  | recheck k bribe myLine p =>
    simp only [next]
    split
    · rename_i q hq
      exact Check.after_some hq m
    · rename_i hq
      refine iff_of_false ?_ (Check.after_none hq m)
      unfold rechecked
      split <;> simp [held, Check.held, Visit.held]
  | checkOut p =>
    simp only [next]
    split
    · rename_i q hq
      exact CheckOut.after_some hq _ m
    · rename_i hq
      exact iff_of_false (by simp [held]) (CheckOut.after_none hq _ m)
  | exited => exact absurd rfl h

theorem Senator.held_choose (c : Senator) (r : Nat) (m : Lock) : ¬ (c.choose r).held m := by
  unfold choose
  split <;> simp [held, interaction, Visit.held, CheckOut.held]

theorem Senator.after (n : Nat) (c : Senator) (a : Int) (r : Nat) (h : c.request ≠ .Exit)
    (m : Lock) : (c.next n a r).held m ↔ c.request.after c.held m := by
  obtain ⟨me, pc⟩ := c
  cases pc with
  | draw p =>
    simp only [next]
    split
    · rename_i q hq
      exact Draw.after_some hq _ _ _ m
    · rename_i hq
      exact iff_of_false (by simp [held, Arrive.held]) (Draw.after_none hq _ _ _ m)
  | arrive p =>
    simp only [next]
    split
    · rename_i q hq
      exact Arrive.after_some hq m
    · rename_i hq
      exact iff_of_false (held_choose _ r m) (Arrive.after_none hq m)
  | visit v =>
    have hv := v.after n me.SSN a r h m
    simp only [next]
    split
    · rename_i pc hpc
      rw [hpc] at hv
      exact hv
    · rename_i myLine hpc
      rw [hpc] at hv
      exact iff_of_false (held_choose _ r m) fun hm => hv.mpr hm
    · rename_i result hpc
      rw [hpc] at hv
      exact iff_of_false (held_choose _ r m) fun hm => hv.mpr hm
  | leave p =>
    simp only [next]
    split
    · rename_i q hq
      exact CheckOut.after_some hq _ m
    · rename_i hq
      exact iff_of_false (by simp [held]) (CheckOut.after_none hq _ m)
  | exited => exact absurd rfl h

theorem Break.after (n : Nat) (c : Clerk) (p : Break) (hpc : c.pc = .call (.onBreak p)) (a : Int)
    (r : Nat) (m : Lock) : (c.next n a r).held m ↔ c.request.after c.held m := by
  obtain ⟨k, myLine, money, fromLine, SSN, pc⟩ := c
  cases hpc
  cases p with
  | releaseEnd => simp [Clerk.next, Clerk.nextCall, Clerk.goTo, Clerk.held, Clerk.request, request]
  | _ =>
    simp only [Clerk.next, Clerk.nextCall]
    split <;> simp [Clerk.goTo, Clerk.held, Clerk.request, request]

theorem Clerk.held_serve (c : Clerk) (p : Serve) (hp : p ≠ .setApplicationCompletion) (m : Lock) :
    ({ c with pc := .serve p } : Clerk).held m ↔ m = .clerkLock c.kind c.myLine := by
  cases p with
  | setApplicationCompletion => exact absurd rfl hp
  | _ => rfl

/-- The counter is left with `Release` only. -/
theorem Clerk.nextServe_ne {k : Kind} {a : Int} {p q : Serve} (h : nextServe k a p = some q)
    (hp : p ≠ .release) : q ≠ .setApplicationCompletion := by
  rintro rfl
  cases p with
  | release => exact hp rfl
  | getSSN => cases k <;> cases h
  | _ =>
    simp only [nextServe] at h
    grind

/-- The service of a customer ends with `Release`, or with the filing after it. -/
theorem Clerk.nextServe_none {k : Kind} {a : Int} {p : Serve} (h : nextServe k a p = none) :
    p = .release ∨ p = .setApplicationCompletion := by
  cases p with
  | release => exact .inl rfl
  | setApplicationCompletion => exact .inr rfl
  | _ =>
    simp only [nextServe] at h
    grind

theorem Serve.after (n : Nat) (c : Clerk) (p : Serve) (hpc : c.pc = .serve p) (a : Int)
    (r : Nat) (m : Lock) : (c.next n a r).held m ↔ c.request.after c.held m := by
  obtain ⟨k, myLine, money, fromLine, SSN, pc⟩ := c
  cases hpc
  have hself : (if p = .getSSN then (Clerk.mk k myLine money fromLine SSN (.serve p)).receive a
      else ⟨k, myLine, money, fromLine, SSN, .serve p⟩).kind = k ∧
      (if p = .getSSN then (Clerk.mk k myLine money fromLine SSN (.serve p)).receive a
      else ⟨k, myLine, money, fromLine, SSN, .serve p⟩).myLine = myLine := by
    split <;> exact ⟨rfl, rfl⟩
  simp only [Clerk.next]
  split
  · rename_i q hq
    by_cases hrelease : p = .release
    · subst hrelease
      simp only [Clerk.nextServe] at hq
      split at hq
      · cases hq
        simp [Clerk.held, Clerk.request]
      · cases hq
    · rw [Clerk.held_serve _ q (Clerk.nextServe_ne hq hrelease), hself.1, hself.2]
      cases p <;> simp_all [Clerk.held, Clerk.request, Clerk.nextServe]
  · rename_i hq
    rcases Clerk.nextServe_none hq with rfl | rfl
    · simp [Clerk.goTo, Clerk.held, SenatorCheck.held, Clerk.request]
    · simp [Clerk.goTo, Clerk.held, SenatorCheck.held, Clerk.request]

theorem Clerk.after (n : Nat) (c : Clerk) (a : Int) (r : Nat) (h : c.request ≠ .Exit)
    (m : Lock) : (c.next n a r).held m ↔ c.request.after c.held m := by
  obtain ⟨k, myLine, money, fromLine, SSN, pc⟩ := c
  cases pc with
  | draw p =>
    simp only [next]
    split
    · rename_i q hq
      exact Draw.after_some hq _ _ _ m
    · rename_i hq
      exact iff_of_false (by simp [goTo, held, SenatorCheck.held]) (Draw.after_none hq _ _ _ m)
  | senator p =>
    cases p with
    | release waiting =>
      simp only [next]
      split <;> simp [goTo, held, SenatorCheck.held, request, SenatorCheck.request]
    | _ => simp [next, goTo, held, SenatorCheck.held, request, SenatorCheck.request]
  | call p =>
    cases p with
    | onBreak p => exact Break.after n _ p rfl a r m
    | acquireClerk =>
      refine Iff.trans ?_ (after_acquireClerkLock h _ m).symm
      simp [next, nextCall, goTo, held, or_comm]
    | getBribeLineCount =>
      simp only [next, nextCall]
      split <;> simp [goTo, held, request]
    | getLineCount =>
      simp only [next, nextCall]
      split <;> simp [held, request]
    | releaseLine =>
      simp [next, nextCall, goTo, held, request]
      grind
    | _ => simp [next, nextCall, goTo, held, SenatorCheck.held, request]
  | serve p => exact Serve.after n _ p rfl a r m
  | exited => exact absurd rfl h

theorem ManagerPC.after (n : Nat) (p : ManagerPC) (a : Int) (h : p.request ≠ .Exit) (m : Lock) :
    (p.next n a).held m ↔ p.request.after p.held m := by
  cases p with
  | senators p =>
    simp only [next]
    split
    · rename_i q hq
      cases p <;> grind [held, request, nextSenators, Request.after]
    · rename_i hq
      have hend : p = .releaseToBroadcast ∨ p = .release := by
        cases p <;> grind [nextSenators]
      rcases hend with rfl | rfl <;> simp [held, request]
  | lines k p =>
    cases p with
    | bribeLine i =>
      simp only [next]
      split <;> simp [held, request]
    | release =>
      simp only [next]
      split <;> simp [held, request]
    | _ => simp [next, held, request]
  | wakeUp k p =>
    cases p with
    | getCount i asleep wake =>
      simp only [next]
      split
      · simp [held, request]
      · split <;> simp [held, request]
    | release =>
      simp only [next]
      split <;> simp [held, request]
    | _ => simp [next, held, request]
  | endOfDay p =>
    simp only [next]
    split
    · rename_i q hq
      cases p <;> grind [held, request, nextEndOfDay, Request.after]
    · rename_i hq
      have hend : p = .releaseEnd ∨ p = .release := by
        cases p <;> grind [nextEndOfDay]
      rcases hend with rfl | rfl <;> simp [held, request]
  | wakeAll k p =>
    cases p with
    | release =>
      simp only [next]
      split <;> simp [held, request]
    | _ => simp [next, held, request]
  | exited => exact absurd rfl h

theorem Loc.after (n : Nat) (p : Loc) (a : Int) (r : Nat) (h : p.request ≠ .Exit) (m : Lock) :
    (p.next n a r).held m ↔ p.request.after p.held m := by
  cases p with
  | customer c => exact c.after n a r h m
  | senator c => exact c.after n a r h m
  | clerk c => exact c.after n a r h m
  | manager pc => exact pc.after n a h m
  | stopPass done => cases done <;> rfl

/-- **The programs hold their locks as they say.** -/
theorem discipline (n : Nat) : Discipline (program n) Loc.held CV.lock where
  inOrder := Loc.inOrder
  after p a r := p.after n a r

theorem Process.start_held (p : Process) (m : Lock) : ¬ p.start.held m := by
  cases p <;> simp [start, Loc.held, Customer.held, Senator.held, Clerk.held, ManagerPC.held,
    CheckIn.held, Draw.held]

end Nachos.Passport

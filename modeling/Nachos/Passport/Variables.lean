import Nachos.Passport.Locks

/-!
# The passport office: what the variables say

Most variables are guarded by a lock, and a program that holds it knows what it has read
(`Loc.claim`). Six of them count processes: each counts those at certain places of their
programs (`Loc.counts`).
-/

namespace Nachos.Passport

open Lib.Monitor

set_option linter.unnecessarySeqFocus false

/-- The lock that a variable is written under. The states of the clerks are left out: a customer
that released the line lock writes them without it. -/
def MV.guard : MV → Option Lock
  | .customersPresentCount | .senatorPresentCount | .checkedOutCount | .senatorLineCount
  | .passportOfficeOutsideLineCount | .senatorSafeToEnter | .senatorPresentWaitOutSide =>
    some .managerLock
  | .lineCount k | .bribeLineCount k => some (.lineLock k)
  | .SSNCount => some .SSNLock
  | .myLine k => some (.myLineLock k)
  | _ => none

/-- `Get`, as the programs see it. -/
def MV.get (val : MV → Int → Int) (x : MV) (i : Int) : Int :=
  if 0 ≤ i ∧ i < x.size then val x i else 0

/-! ### What the programs know -/

/-- The value that was read is still there when it is written back. -/
def Bump.claim (x : MV) (i : Int) (val : MV → Int → Int) : Bump → Prop
  | .get => True
  | .set temp => x.get val i = temp

def Draw.claim (x : MV) (drawn : Int) (val : MV → Int → Int) : Draw → Prop
  | .set => x.get val 0 = drawn
  | _ => True

def CheckIn.claim (val : MV → Int → Int) : CheckIn → Prop
  | .present b => b.claim .customersPresentCount 0 val
  | _ => True

/-- A customer that goes on has seen no flag. -/
def Check.claim (val : MV → Int → Int) : Check → Prop
  | .goOutside b | .goInside b => b.claim .customersPresentCount 0 val
  | .joinLine b | .leaveLine b => b.claim .passportOfficeOutsideLineCount 0 val
  | .release false => MV.senatorPresentWaitOutSide.get val 0 = 0
  | _ => True

def CheckOut.claim (x : MV) (val : MV → Int → Int) : CheckOut → Prop
  | .present b => b.claim x 0 val
  | .checkedOut b => b.claim .checkedOutCount 0 val
  | _ => True

/-- A senator that enters has seen that it is safe, and one that joins the line that it is not. -/
def Arrive.claim (val : MV → Int → Int) : Arrive → Prop
  | .joinLine b => b.claim .senatorLineCount 0 val ∧ MV.senatorSafeToEnter.get val 0 = 0
  | .wait => MV.senatorSafeToEnter.get val 0 = 0
  | .leaveLine b => b.claim .senatorLineCount 0 val
  | .enter b =>
    b.claim .senatorPresentCount 0 val ∧ MV.senatorSafeToEnter.get val 0 ≠ 0
  | _ => True

def Visit.claim (v : Visit) (val : MV → Int → Int) : Prop :=
  match v.pc with
  | .line (.join myLine b) | .line (.leave myLine b) =>
    b.claim (countMV v.kind v.bribe) myLine val
  | _ => True

/-- A clerk that signals one of its lines has seen that somebody is counted there. -/
def Clerk.claim (c : Clerk) (val : MV → Int → Int) : Prop :=
  match c.pc with
  | .draw p => p.claim (.myLine c.kind) c.myLine val
  | .call .signalBribe => MV.get val (.bribeLineCount c.kind) c.myLine > 0
  | .call .getLineCount => ¬ MV.get val (.bribeLineCount c.kind) c.myLine > 0
  | .call .signalLine =>
    ¬ MV.get val (.bribeLineCount c.kind) c.myLine > 0 ∧
      MV.get val (.lineCount c.kind) c.myLine > 0
  | _ => True

/-- The values that the manager has read, and the flags that it has set. -/
def SenatorDuty.claim (val : MV → Int → Int) : SenatorDuty → Prop
  | .getSenatorsInside waiting => waiting ↔ MV.senatorLineCount.get val 0 > 0
  | .getCustomersInside waiting inside =>
    (waiting ↔ MV.senatorLineCount.get val 0 > 0) ∧ (inside ↔ MV.senatorPresentCount.get val 0 > 0)
  | .getCustomersOutside waiting inside customers =>
    (waiting ↔ MV.senatorLineCount.get val 0 > 0) ∧
      (inside ↔ MV.senatorPresentCount.get val 0 > 0) ∧
      (customers ↔ MV.customersPresentCount.get val 0 > 0)
  | .setWaitOutSide customers =>
    MV.senatorLineCount.get val 0 > 0 ∧ (customers ↔ MV.customersPresentCount.get val 0 > 0)
  | .releaseToBroadcast =>
    MV.senatorPresentWaitOutSide.get val 0 = 1 ∧ MV.senatorLineCount.get val 0 > 0
  | .setSafe =>
    MV.senatorPresentWaitOutSide.get val 0 = 1 ∧ ¬ MV.customersPresentCount.get val 0 > 0
  | .broadcastSenators =>
    MV.senatorPresentWaitOutSide.get val 0 = 1 ∧ MV.senatorSafeToEnter.get val 0 = 1
  | .getSafe =>
    ¬ MV.senatorLineCount.get val 0 > 0 ∧ ¬ MV.senatorPresentCount.get val 0 > 0
  | .unsetSafe =>
    ¬ MV.senatorLineCount.get val 0 > 0 ∧ ¬ MV.senatorPresentCount.get val 0 > 0 ∧
      MV.senatorSafeToEnter.get val 0 ≠ 0
  | .unsetWaitOutSide =>
    ¬ MV.senatorPresentCount.get val 0 > 0 ∧ MV.senatorSafeToEnter.get val 0 = 0
  | .broadcastOutside =>
    MV.senatorPresentWaitOutSide.get val 0 = 0 ∧ MV.senatorSafeToEnter.get val 0 = 0
  | _ => True

def Loc.claim (p : Loc) (val : MV → Int → Int) : Prop :=
  match p with
  | .customer c =>
    match c.pc with
    | .checkIn p => p.claim val
    | .draw p => p.claim .SSNCount c.me.SSN val
    | .check p => p.claim val
    | .visit v => v.claim val
    | .recheck _ _ _ p => p.claim val
    | .checkOut p => p.claim .customersPresentCount val
    | .exited => True
  | .senator c =>
    match c.pc with
    | .draw p => p.claim .SSNCount c.me.SSN val
    | .arrive p => p.claim val
    | .visit v => v.claim val
    | .leave p => p.claim .senatorPresentCount val
    | .exited => True
  | .clerk c => c.claim val
  | .manager (.senators p) => p.claim val
  | _ => True

/-! ### Reads and writes -/

section Reads

variable {val val' : MV → Int → Int} {x y : MV} {i j v : Int}

theorem get_congr (h : val' x = val x) (i : Int) : x.get val' i = x.get val i := by
  unfold MV.get
  rw [h]

theorem get_set_self (n : Nat) (h : 0 ≤ i ∧ i < x.size) :
    x.get ((program n).set val x i v) i = v := by
  have hset : (program n).set val x i v = _ := if_pos h
  rw [hset, MV.get, if_pos h, Function.update_self, Function.update_self]

theorem set_of_ne (n : Nat) (h : y ≠ x) : (program n).set val x i v y = val y := by
  unfold Program.set
  split
  · exact Function.update_of_ne h _ _
  · rfl

theorem get_set_of_ne (n : Nat) (h : y ≠ x) :
    y.get ((program n).set val x i v) j = y.get val j :=
  get_congr (set_of_ne n h) j

theorem get_set_of_index_ne (n : Nat) (h : j ≠ i) :
    x.get ((program n).set val x i v) j = x.get val j := by
  unfold Program.set
  split
  · unfold MV.get
    rw [Function.update_self, Function.update_of_ne h]
  · rfl

end Reads

/-! ### What is known stays so while the lock is held -/

section Stable

variable {val val' : MV → Int → Int}

theorem Bump.stable (b : Bump) {x : MV} {i : Int} (hval : val' x = val x)
    (h : b.claim x i val) : b.claim x i val' := by
  cases b with
  | get => trivial
  | set temp => exact (get_congr hval i).trans h

theorem Draw.stable (p : Draw) {x : MV} {drawn : Int} (hval : p ≠ .acquire → val' x = val x)
    (h : p.claim x drawn val) : p.claim x drawn val' := by
  cases p with
  | set => exact (get_congr (hval nofun) 0).trans h
  | _ => trivial

variable (hval : ∀ x, MV.guard x = some .managerLock → val' x = val x)

include hval

theorem CheckIn.stable (p : CheckIn) (h : p.claim val) : p.claim val' := by
  cases p with
  | present b => exact b.stable (hval _ rfl) h
  | _ => trivial

theorem Check.stable (p : Check) (h : p.claim val) : p.claim val' := by
  cases p with
  | goOutside b => exact b.stable (hval _ rfl) h
  | joinLine b => exact b.stable (hval _ rfl) h
  | goInside b => exact b.stable (hval _ rfl) h
  | leaveLine b => exact b.stable (hval _ rfl) h
  | release present =>
    cases present with
    | false => exact (get_congr (hval _ rfl) 0).trans h
    | true => trivial
  | _ => trivial

theorem CheckOut.stable (p : CheckOut) {x : MV} (hx : x.guard = some .managerLock)
    (h : p.claim x val) : p.claim x val' := by
  cases p with
  | present b => exact b.stable (hval _ hx) h
  | checkedOut b => exact b.stable (hval _ rfl) h
  | _ => trivial

theorem Arrive.stable (p : Arrive) (h : p.claim val) : p.claim val' := by
  cases p with
  | joinLine b => exact ⟨b.stable (hval _ rfl) h.1, by rw [get_congr (hval _ rfl)]; exact h.2⟩
  | wait => exact (get_congr (hval _ rfl) 0).trans h
  | leaveLine b => exact b.stable (hval _ rfl) h
  | enter b => exact ⟨b.stable (hval _ rfl) h.1, by rw [get_congr (hval _ rfl)]; exact h.2⟩
  | _ => trivial

theorem SenatorDuty.stable (p : SenatorDuty) (h : p.claim val) : p.claim val' := by
  have hget : ∀ x, MV.guard x = some .managerLock → x.get val' 0 = x.get val 0 := fun x hx =>
    get_congr (hval x hx) 0
  cases p <;> simp only [claim, hget .senatorLineCount rfl, hget .senatorPresentCount rfl,
    hget .customersPresentCount rfl, hget .senatorSafeToEnter rfl,
    hget .senatorPresentWaitOutSide rfl] <;> exact h

end Stable

theorem Visit.stable (v : Visit) {val val' : MV → Int → Int}
    (hval : ∀ x m, MV.guard x = some m → v.held m → val' x = val x) (h : v.claim val) :
    v.claim val' := by
  obtain ⟨k, bribe, pc⟩ := v
  have hcount : MV.guard (countMV k bribe) = some (.lineLock k) := by cases bribe <;> rfl
  cases pc with
  | line p =>
    cases p with
    | join myLine b => exact b.stable (hval _ _ hcount ⟨nofun, rfl⟩) h
    | leave myLine b => exact b.stable (hval _ _ hcount ⟨nofun, rfl⟩) h
    | _ => trivial
  | _ => trivial

theorem Clerk.stable (c : Clerk) {val val' : MV → Int → Int}
    (hval : ∀ x m, MV.guard x = some m → c.held m → val' x = val x) (h : c.claim val) :
    c.claim val' := by
  obtain ⟨k, myLine, money, fromLine, SSN, pc⟩ := c
  cases pc with
  | draw p => exact p.stable (fun hp => hval (.myLine k) (.myLineLock k) rfl ⟨hp, rfl⟩) h
  | call p =>
    cases p with
    | signalBribe | getLineCount | signalLine =>
      have hbribe := get_congr (hval (.bribeLineCount k) (.lineLock k) rfl rfl) myLine
      have hline := get_congr (hval (.lineCount k) (.lineLock k) rfl rfl) myLine
      simp only [claim, hbribe, hline]
      exact h
    | _ => trivial
  | _ => trivial

/-- **What a location knows depends on the variables that its locks guard.** -/
theorem Loc.stable (p : Loc) {val val' : MV → Int → Int} (h : p.claim val)
    (hval : ∀ x m, MV.guard x = some m → p.held m → val' x = val x) : p.claim val' := by
  cases p with
  | customer c =>
    obtain ⟨me, past, pc⟩ := c
    cases pc with
    | checkIn p =>
      rcases eq_or_ne p .acquire with rfl | hp
      · trivial
      · exact p.stable (fun x hx => hval x _ hx ⟨hp, rfl⟩) h
    | draw p => exact p.stable (fun hp => hval .SSNCount _ rfl ⟨hp, rfl⟩) h
    | check p | recheck _ _ _ p =>
      rcases eq_or_ne p .acquire with rfl | hp
      · trivial
      · exact p.stable (fun x hx => hval x _ hx ⟨hp, rfl⟩) h
    | visit v => exact v.stable hval h
    | checkOut p =>
      rcases eq_or_ne p .acquire with rfl | hp
      · trivial
      · exact p.stable (fun x hx => hval x _ hx ⟨hp, rfl⟩) rfl h
    | exited => trivial
  | senator c =>
    obtain ⟨me, pc⟩ := c
    cases pc with
    | draw p => exact p.stable (fun hp => hval .SSNCount _ rfl ⟨hp, rfl⟩) h
    | arrive p =>
      rcases eq_or_ne p .acquire with rfl | hp
      · trivial
      · exact p.stable (fun x hx => hval x _ hx ⟨hp, rfl⟩) h
    | visit v => exact v.stable hval h
    | leave p =>
      rcases eq_or_ne p .acquire with rfl | hp
      · trivial
      · exact p.stable (fun x hx => hval x _ hx ⟨hp, rfl⟩) rfl h
    | exited => trivial
  | clerk c => exact c.stable hval h
  | manager pc =>
    cases pc with
    | senators p =>
      rcases eq_or_ne p .acquire with rfl | hp
      · trivial
      · exact p.stable (fun x hx => hval x _ hx ⟨hp, rfl⟩) h
    | _ => trivial
  | stopPass done => trivial

/-! ### What a call adds to it -/

section Steps

variable (n : Nat) {val : MV → Int → Int} {a : Int}

/-- What is known after a change is known of the variables after it. -/
abbrev answered (n : Nat) (q : Request) (val : MV → Int → Int) : Int × (MV → Int → Int) :=
  (program n).effect q val

theorem Draw.learns (p : Draw) {l : Lock} {x : MV} {drawn : Int} {q : Draw}
    (h : p.next = some q) :
    q.claim x (if p = .get then (answered n (p.request l x drawn) val).1 else drawn)
      (answered n (p.request l x drawn) val).2 := by
  cases p <;> cases h <;> trivial

theorem CheckIn.learns (p : CheckIn) {q : CheckIn}
    (h : p.next (answered n p.request val).1 = some q) : q.claim (answered n p.request val).2 := by
  cases p with
  | present b => cases b <;> cases h <;> trivial
  | _ => cases h <;> trivial

theorem CheckOut.learns (p : CheckOut) {x : MV} {q : CheckOut}
    (h : p.next (answered n (p.request x) val).1 = some q) :
    q.claim x (answered n (p.request x) val).2 := by
  cases p with
  | present b | checkedOut b => cases b <;> cases h <;> trivial
  | _ => cases h <;> trivial

theorem Check.learns (p : Check) {q : Check}
    (h : p.next (answered n p.request val).1 = some q) : q.claim (answered n p.request val).2 := by
  cases p with
  | goOutside b | joinLine b | goInside b | leaveLine b => cases b <;> cases h <;> trivial
  | getWaitOutSide =>
    simp only [next] at h
    split at h
    · cases h
      trivial
    · rename_i hflag
      cases h
      exact not_not.mp hflag
  | _ => cases h <;> trivial

theorem Arrive.learns (p : Arrive) {q : Arrive} (hp : p.claim val)
    (h : p.next (answered n p.request val).1 = some q) : q.claim (answered n p.request val).2 := by
  cases p with
  | joinLine b =>
    cases b with
    | get =>
      cases h
      exact ⟨rfl, hp.2⟩
    | set temp =>
      cases h
      show MV.senatorSafeToEnter.get ((program n).set val .senatorLineCount 0 (temp + 1)) 0 = 0
      rw [get_set_of_ne n (show MV.senatorSafeToEnter ≠ .senatorLineCount from nofun)]
      exact hp.2
  | leaveLine b => cases b <;> cases h <;> trivial
  | enter b =>
    cases b with
    | get =>
      cases h
      exact ⟨rfl, hp.2⟩
    | set temp =>
      cases h
      trivial
  | getSafe =>
    simp only [next] at h
    split at h
    · rename_i hsafe
      cases h
      exact ⟨trivial, hsafe⟩
    · rename_i hsafe
      cases h
      exact ⟨trivial, hsafe⟩
  | _ => cases h <;> trivial

theorem Visit.learns (v : Visit) {SSN : Int} {r : Nat} {pc : VisitPC}
    (h : v.next n (answered n (v.request SSN) val).1 r = .at pc) :
    (Visit.mk v.kind v.bribe pc).claim (answered n (v.request SSN) val).2 := by
  obtain ⟨k, bribe, p⟩ := v
  cases p with
  | line p =>
    cases p with
    | join myLine b | leave myLine b => cases b <;> cases h <;> trivial
    | acquire =>
      cases h
      unfold claim picked
      split <;> first | trivial | (rename_i heq; split at heq <;> cases heq)
    | getState i myLine lineSize temp =>
      simp only [next, Line.next, picked] at h
      grind [claim]
    | _ =>
      simp only [next, Line.next] at h
      grind [claim, Bump.claim]
  | unlocked myLine p => cases p <;> cases h <;> trivial
  | talk myLine p =>
    cases p <;> simp only [next, Talk.next] at h <;> grind [claim]

theorem SenatorDuty.learns (p : SenatorDuty) {q : SenatorDuty} (hp : p.claim val)
    (h : ManagerPC.nextSenators (answered n (ManagerPC.senators p).request val).1 p = some q) :
    q.claim (answered n (ManagerPC.senators p).request val).2 := by
  -- a flag is set, and the other variables stay
  have hself : ∀ x v, MV.size x = 1 → x.get (answered n (.Set x 0 v) val).2 0 = v :=
    fun x v hx => get_set_self n ⟨le_rfl, by rw [hx]; decide⟩
  have hkeep : ∀ (y x : MV) (v : Int), y ≠ x → y.get (answered n (.Set x 0 v) val).2 0 = y.get val 0 :=
    fun y x v hyx => get_set_of_ne n hyx
  cases p with
  | getSenatorLine =>
    cases h
    exact decide_eq_true_iff
  | getSenatorsInside waiting =>
    cases h
    exact ⟨hp, decide_eq_true_iff⟩
  | getCustomersInside waiting inside =>
    cases h
    exact ⟨hp.1, hp.2, decide_eq_true_iff⟩
  | getCustomersOutside waiting inside customers =>
    simp only [ManagerPC.nextSenators] at h
    obtain ⟨hwaiting, hinside, hcustomers⟩ := hp
    split at h
    · rename_i hw
      cases h
      exact ⟨hwaiting.mp hw, hcustomers⟩
    · rename_i hw
      split at h
      · rename_i hi
        cases h
        refine ⟨fun hpos => hw (hwaiting.mpr hpos), fun hpos => ?_⟩
        rw [hinside.mpr hpos] at hi
        cases hi
      · cases h
        trivial
  | setWaitOutSide customers =>
    obtain ⟨hwaiting, hcustomers⟩ := hp
    simp only [ManagerPC.nextSenators] at h
    split at h
    · cases h
      exact ⟨hself .senatorPresentWaitOutSide 1 rfl,
        lt_of_lt_of_eq hwaiting (hkeep .senatorLineCount .senatorPresentWaitOutSide 1 (by simp)).symm⟩
    · rename_i hnone
      cases h
      refine ⟨hself .senatorPresentWaitOutSide 1 rfl, fun hpos => hnone (hcustomers.mpr ?_)⟩
      exact lt_of_lt_of_eq hpos (hkeep .customersPresentCount .senatorPresentWaitOutSide 1 (by simp))
  | setSafe =>
    cases h
    exact ⟨(hkeep .senatorPresentWaitOutSide .senatorSafeToEnter 1 (by simp)).trans hp.1,
      hself .senatorSafeToEnter 1 rfl⟩
  | getSafe =>
    simp only [ManagerPC.nextSenators] at h
    split at h
    · rename_i hsafe
      cases h
      exact ⟨hp.1, hp.2, hsafe⟩
    · cases h
      trivial
  | unsetSafe =>
    cases h
    refine ⟨fun hpos => hp.2.1 ?_, hself .senatorSafeToEnter 0 rfl⟩
    exact lt_of_lt_of_eq hpos (hkeep .senatorPresentCount .senatorSafeToEnter 0 (by simp))
  | unsetWaitOutSide =>
    cases h
    exact ⟨hself .senatorPresentWaitOutSide 0 rfl,
      (hkeep .senatorSafeToEnter .senatorPresentWaitOutSide 0 (by simp)).trans hp.2⟩
  | _ => cases h <;> trivial

theorem Clerk.learns (c : Clerk) (r : Nat) (hc : c.claim val) :
    (c.next n (answered n c.request val).1 r).claim (answered n c.request val).2 := by
  obtain ⟨k, myLine, money, fromLine, SSN, pc⟩ := c
  cases pc with
  | draw p =>
    simp only [next]
    split
    · rename_i q hq
      exact Draw.learns n p hq
    · trivial
  | senator p =>
    cases p with
    | release waiting => cases waiting <;> trivial
    | _ => trivial
  | call p =>
    cases p with
    | getBribeLineCount =>
      simp only [next, nextCall]
      split
      · rename_i hpos
        exact hpos
      · rename_i hpos
        exact hpos
    | getLineCount =>
      simp only [next, nextCall]
      split
      · rename_i hpos
        exact ⟨hc, hpos⟩
      · trivial
    | onBreak p =>
      cases p with
      | releaseEnd => trivial
      | _ =>
        simp only [next, nextCall]
        split <;> trivial
    | _ => trivial
  | serve p =>
    simp only [next]
    split
    · split <;> trivial
    · trivial
  | exited => trivial

theorem Customer.learns (c : Customer) (r : Nat) (h : (Loc.customer c).claim val) :
    (Loc.customer (c.next n (answered n c.request val).1 r)).claim
      (answered n c.request val).2 := by
  obtain ⟨me, past, pc⟩ := c
  have hchoose : ∀ (c : Customer) v, (Loc.customer (c.choose r)).claim v := fun c v => by
    unfold choose
    split <;> trivial
  cases pc with
  | checkIn p =>
    simp only [next]
    split
    · rename_i q hq
      exact CheckIn.learns n p hq
    · trivial
  | draw p =>
    simp only [next]
    split
    · rename_i q hq
      have hlearns := @Draw.learns n val p .SSNLock .SSNCount me.SSN q hq
      cases p <;> exact hlearns
    · trivial
  | check p =>
    simp only [next]
    split
    · rename_i q hq
      exact Check.learns n p hq
    · exact hchoose _ _
  | visit v =>
    simp only [next]
    split
    · rename_i pc hpc
      exact v.learns n hpc
    · trivial
    · trivial
  | recheck k bribe myLine p =>
    simp only [next]
    split
    · rename_i q hq
      exact Check.learns n p hq
    · unfold rechecked
      split <;> trivial
  | checkOut p =>
    simp only [next]
    split
    · rename_i q hq
      exact CheckOut.learns n p hq
    · trivial
  | exited => trivial

theorem Senator.learns (c : Senator) (r : Nat) (h : (Loc.senator c).claim val) :
    (Loc.senator (c.next n (answered n c.request val).1 r)).claim
      (answered n c.request val).2 := by
  obtain ⟨me, pc⟩ := c
  have hchoose : ∀ (c : Senator) v, (Loc.senator (c.choose r)).claim v := fun c v => by
    unfold choose
    split <;> trivial
  cases pc with
  | draw p =>
    simp only [next]
    split
    · rename_i q hq
      have hlearns := @Draw.learns n val p .SSNLock .SSNCount me.SSN q hq
      cases p <;> exact hlearns
    · trivial
  | arrive p =>
    simp only [next]
    split
    · rename_i q hq
      exact Arrive.learns n p h hq
    · exact hchoose _ _
  | visit v =>
    simp only [next]
    split
    · rename_i pc hpc
      exact v.learns n hpc
    · exact hchoose _ _
    · exact hchoose _ _
  | leave p =>
    simp only [next]
    split
    · rename_i q hq
      exact CheckOut.learns n p hq
    · trivial
  | exited => trivial

/-- **What a call adds to what is known is so after it.** -/
theorem Loc.learns (p : Loc) (r : Nat) (h : p.claim val) :
    (p.next n (answered n p.request val).1 r).claim (answered n p.request val).2 := by
  cases p with
  | customer c => exact c.learns n r h
  | senator c => exact c.learns n r h
  | clerk c => exact c.learns n r h
  | manager pc =>
    cases pc with
    | senators p =>
      simp only [next, ManagerPC.next]
      split
      · rename_i q hq
        exact p.learns n h hq
      · split <;> trivial
    | endOfDay p =>
      simp only [next, ManagerPC.next]
      split
      · trivial
      · split <;> trivial
    | lines k p | wakeUp k p | wakeAll k p =>
      simp only [next, ManagerPC.next]
      repeat' split
      all_goals trivial
    | exited => trivial
  | stopPass done => trivial

/-- A visit that waits knows nothing when it goes on. -/
theorem Visit.forgets (v : Visit) {SSN : Int} {c : CV} {m : Lock} (h : v.request SSN = .Wait c m)
    (a : Int) (r : Nat) :
    ∃ pc, v.next n a r = .at pc ∧ (Visit.mk v.kind v.bribe pc).claim val := by
  obtain ⟨k, bribe, p⟩ := v
  cases p with
  | line p =>
    cases p with
    | wait myLine => exact ⟨_, rfl, trivial⟩
    | join myLine b | leave myLine b => cases b <;> cases h
    | _ => cases h
  | unlocked myLine p => cases p <;> cases h
  | talk myLine p =>
    cases p with
    | wait => cases k <;> exact ⟨_, rfl, trivial⟩
    | waitPicture | waitPassport => exact ⟨_, rfl, trivial⟩
    | acquire =>
      have hlock : acquireClerkLock k myLine = .Wait c m := h
      unfold acquireClerkLock at hlock
      split at hlock <;> cases hlock
    | _ => cases h

/-- After `Wait` nothing is known. -/
theorem Loc.forgets (p : Loc) {c : CV} {m : Lock} (h : p.request = .Wait c m) (a : Int) (r : Nat) :
    (p.next n a r).claim val := by
  cases p with
  | customer c =>
    obtain ⟨me, past, pc⟩ := c
    cases pc with
    | checkIn p => cases p with
      | present b => cases b <;> cases h
      | _ => cases h
    | draw p => cases p <;> cases h
    | check p | recheck _ _ _ p => cases p with
      | wait => trivial
      | goOutside b | joinLine b | goInside b | leaveLine b => cases b <;> cases h
      | _ => cases h
    | visit v =>
      obtain ⟨pc, hpc, hclaim⟩ := v.forgets n h a r
      simp only [next, Customer.next, hpc]
      exact hclaim
    | checkOut p => cases p with
      | present b | checkedOut b => cases b <;> cases h
      | _ => cases h
    | exited => cases h
  | senator c =>
    obtain ⟨me, pc⟩ := c
    cases pc with
    | draw p => cases p <;> cases h
    | arrive p => cases p with
      | wait => trivial
      | joinLine b | leaveLine b | enter b => cases b <;> cases h
      | _ => cases h
    | visit v =>
      obtain ⟨pc, hpc, hclaim⟩ := v.forgets n h a r
      simp only [next, Senator.next, hpc]
      exact hclaim
    | leave p => cases p with
      | present b | checkedOut b => cases b <;> cases h
      | _ => cases h
    | exited => cases h
  | clerk c =>
    obtain ⟨k, myLine, money, fromLine, SSN, pc⟩ := c
    cases pc with
    | draw p => cases p <;> cases h
    | senator p => cases p <;> cases h
    | call p => cases p with
      | acquireClerk => trivial
      | onBreak p => cases p with
        | wait => trivial
        | _ => cases h
      | _ => cases h
    | serve p => cases p with
      | wait | waitAnswer | waitMoney => trivial
      | _ => cases h
    | exited => cases h
  | manager pc =>
    cases pc with
    | exited => cases h
    | senators p | lines _ p | wakeUp _ p | endOfDay p | wakeAll _ p => cases p <;> cases h
  | stopPass done => cases done <;> cases h

theorem Bump.request_set {b : Bump} {x y : MV} {i j d v : Int} (h : b.request x i d = .Set y j v) :
    y = x ∧ j = i ∧ b = .set (v - d) := by
  cases b with
  | get => cases h
  | set temp =>
    cases h
    exact ⟨rfl, rfl, by rw [Int.add_sub_cancel]⟩

/-- A visit writes the counts of its line under the line lock. -/
theorem Visit.writes (v : Visit) {SSN : Int} {x : MV} {i w : Int}
    (h : v.request SSN = .Set x i w) {m : Lock} (hx : x.guard = some m) : v.held m := by
  obtain ⟨k, bribe, p⟩ := v
  have hcount : MV.guard (countMV k bribe) = some (.lineLock k) := by cases bribe <;> rfl
  cases p with
  | line p =>
    cases p with
    | join myLine b | leave myLine b =>
      obtain ⟨rfl, -⟩ := Bump.request_set h
      cases hcount.symm.trans hx
      exact ⟨nofun, rfl⟩
    | _ => cases h
  | unlocked myLine p => cases p <;> cases h <;> cases hx
  | talk myLine p =>
    cases p with
    | acquire =>
      have hlock : acquireClerkLock k myLine = .Set x i w := h
      unfold acquireClerkLock at hlock
      split at hlock <;> cases hlock
    | _ => cases h <;> cases hx

/-- **A guarded variable is written under its lock.** -/
theorem Loc.writes (p : Loc) {x : MV} {i v : Int} (h : p.request = .Set x i v) {m : Lock}
    (hx : x.guard = some m) : p.held m := by
  cases p with
  | customer c =>
    obtain ⟨me, past, pc⟩ := c
    cases pc with
    | checkIn p => cases p with
      | present b =>
        obtain ⟨rfl, -⟩ := Bump.request_set h
        cases hx
        exact ⟨nofun, rfl⟩
      | _ => cases h
    | draw p => cases p with
      | set =>
        cases h
        cases hx
        exact ⟨nofun, rfl⟩
      | _ => cases h
    | check p | recheck _ _ _ p => cases p with
      | goOutside b | joinLine b | goInside b | leaveLine b =>
        obtain ⟨rfl, -⟩ := Bump.request_set h
        cases hx
        exact ⟨nofun, rfl⟩
      | _ => cases h
    | visit v => exact v.writes h hx
    | checkOut p => cases p with
      | present b | checkedOut b =>
        obtain ⟨rfl, -⟩ := Bump.request_set h
        cases hx
        exact ⟨nofun, rfl⟩
      | _ => cases h
    | exited => cases h
  | senator c =>
    obtain ⟨me, pc⟩ := c
    cases pc with
    | draw p => cases p with
      | set =>
        cases h
        cases hx
        exact ⟨nofun, rfl⟩
      | _ => cases h
    | arrive p => cases p with
      | joinLine b | leaveLine b | enter b =>
        obtain ⟨rfl, -⟩ := Bump.request_set h
        cases hx
        exact ⟨nofun, rfl⟩
      | _ => cases h
    | visit v => exact v.writes h hx
    | leave p => cases p with
      | present b | checkedOut b =>
        obtain ⟨rfl, -⟩ := Bump.request_set h
        cases hx
        exact ⟨nofun, rfl⟩
      | _ => cases h
    | exited => cases h
  | clerk c =>
    obtain ⟨k, myLine, money, fromLine, SSN, pc⟩ := c
    cases pc with
    | draw p => cases p with
      | set =>
        cases h
        cases hx
        exact ⟨nofun, rfl⟩
      | _ => cases h
    | senator p => cases p <;> cases h
    | call p => cases p with
      | acquireClerk =>
        have hlock : acquireClerkLock k myLine = .Set x i v := h
        unfold acquireClerkLock at hlock
        split at hlock <;> cases hlock
      | onBreak p => cases p <;> cases h <;> cases hx
      | _ => cases h <;> cases hx
    | serve p => cases p <;> cases h <;> cases hx
    | exited => cases h
  | manager pc =>
    cases pc with
    | exited => cases h
    | senators p => cases p <;> cases h <;> cases hx <;> exact ⟨nofun, rfl⟩
    | endOfDay p => cases p <;> cases h <;> cases hx
    | lines _ p | wakeUp _ p | wakeAll _ p => cases p <;> cases h
  | stopPass done => cases done <;> cases h <;> cases hx

theorem not_set_acquireClerkLock {k : Kind} {i : Int} {x : MV} {j v : Int} :
    acquireClerkLock k i ≠ .Set x j v := by
  unfold acquireClerkLock
  split <;> nofun

/-- **Which programs write a variable.** -/
def MV.writtenBy (x : MV) : Loc → Bool
  | .customer _ =>
    match x with
    | .customersPresentCount | .passportOfficeOutsideLineCount | .checkedOutCount | .SSNCount
    | .lineCount _ | .bribeLineCount _ | .clerkState _ | .sharedDataSSN _ | .sharedDataPicture =>
      true
    | _ => false
  | .senator _ =>
    match x with
    | .senatorPresentCount | .senatorLineCount | .checkedOutCount | .SSNCount
    | .lineCount _ | .bribeLineCount _ | .clerkState _ | .sharedDataSSN _ | .sharedDataPicture =>
      true
    | _ => false
  | .clerk _ =>
    match x with
    | .myLine _ | .clerkState _ | .sharedDataPicture | .applicationCompletion
    | .pictureCompletion | .passportCompletion | .passportPunishment | .cashierRejection
    | .doneCompletely => true
    | _ => false
  | .manager _ =>
    match x with
    | .senatorPresentWaitOutSide | .senatorSafeToEnter | .THEEND => true
    | _ => false
  | .stopPass _ => x = .STOPPASS

theorem Visit.writtenBy (w : Visit) {SSN : Int} {x : MV} {i v : Int}
    (h : w.request SSN = .Set x i v) :
    (∃ k, x = .lineCount k ∨ x = .bribeLineCount k ∨ x = .clerkState k ∨ x = .sharedDataSSN k) ∨
      x = .sharedDataPicture := by
  obtain ⟨k, bribe, p⟩ := w
  cases p with
  | line p => cases p with
    | join myLine b | leave myLine b =>
      obtain ⟨rfl, -⟩ := Bump.request_set h
      cases bribe
      · exact .inl ⟨k, .inl rfl⟩
      · exact .inl ⟨k, .inr (.inl rfl)⟩
    | _ => cases h
  | unlocked myLine p => cases p with
    | setBusy =>
      cases h
      exact .inl ⟨k, .inr (.inr (.inl rfl))⟩
    | release => cases h
  | talk myLine p => cases p with
    | acquire => exact absurd h not_set_acquireClerkLock
    | setBusy =>
      cases h
      exact .inl ⟨k, .inr (.inr (.inl rfl))⟩
    | setSSN =>
      cases h
      exact .inl ⟨k, .inr (.inr (.inr rfl))⟩
    | setPicture liked =>
      cases h
      exact .inr rfl
    | _ => cases h

theorem Loc.writtenBy (p : Loc) {x : MV} {i v : Int} (h : p.request = .Set x i v) :
    x.writtenBy p := by
  cases p with
  | customer c =>
    obtain ⟨me, past, pc⟩ := c
    cases pc with
    | visit w => rcases w.writtenBy h with ⟨k, rfl | rfl | rfl | rfl⟩ | rfl <;> rfl
    | checkIn p => cases p with
      | present b =>
        obtain ⟨rfl, -⟩ := Bump.request_set h
        rfl
      | _ => cases h
    | draw p => cases p <;> cases h <;> rfl
    | check p | recheck _ _ _ p => cases p with
      | goOutside b | joinLine b | goInside b | leaveLine b =>
        obtain ⟨rfl, -⟩ := Bump.request_set h
        rfl
      | _ => cases h
    | checkOut p => cases p with
      | present b | checkedOut b =>
        obtain ⟨rfl, -⟩ := Bump.request_set h
        rfl
      | _ => cases h
    | exited => cases h
  | senator c =>
    obtain ⟨me, pc⟩ := c
    cases pc with
    | visit w => rcases w.writtenBy h with ⟨k, rfl | rfl | rfl | rfl⟩ | rfl <;> rfl
    | draw p => cases p <;> cases h <;> rfl
    | arrive p => cases p with
      | joinLine b | leaveLine b | enter b =>
        obtain ⟨rfl, -⟩ := Bump.request_set h
        rfl
      | _ => cases h
    | leave p => cases p with
      | present b | checkedOut b =>
        obtain ⟨rfl, -⟩ := Bump.request_set h
        rfl
      | _ => cases h
    | exited => cases h
  | clerk c =>
    obtain ⟨k, myLine, money, fromLine, SSN, pc⟩ := c
    cases pc with
    | draw p => cases p <;> cases h <;> rfl
    | senator p => cases p <;> cases h
    | call p => cases p with
      | acquireClerk => exact absurd h not_set_acquireClerkLock
      | onBreak p => cases p <;> cases h <;> rfl
      | _ => cases h <;> rfl
    | serve p => cases p <;> cases h <;> rfl
    | exited => cases h
  | manager pc =>
    cases pc with
    | exited => cases h
    | senators p | lines _ p | wakeUp _ p | endOfDay p | wakeAll _ p =>
      cases p <;> cases h <;> rfl
  | stopPass done => cases done <;> cases h <;> rfl

/-- **The programs know what they claim.** -/
theorem claims : Claims (program n) Loc.held MV.guard Loc.claim where
  stable p _ _ h hval := p.stable h hval
  writes p _ _ _ h _ hx := p.writes h hx
  wait p _ _ _ a r h := p.forgets n h a r
  step p _ r _ h := p.learns n r h

end Steps

/-! ### What the variables count -/

/-- The customer is inside: it has come in, and has not gone outside or checked out. -/
def Check.inside : Check → Bool
  | .joinLine _ | .wait | .goInside _ => false
  | _ => true

/-- The customer is in the line outside. -/
def Check.inLine : Check → Bool
  | .wait | .goInside _ | .leaveLine _ => true
  | _ => false

/-- Counted in `customersPresentCount`. -/
def CustomerPC.inside : CustomerPC → Bool
  | .checkIn .release | .draw _ | .visit _ => true
  | .check p | .recheck _ _ _ p => p.inside
  | .checkOut .acquire | .checkOut (.present _) => true
  | _ => false

/-- Counted in `passportOfficeOutsideLineCount`. -/
def CustomerPC.inLine : CustomerPC → Bool
  | .check p | .recheck _ _ _ p => p.inLine
  | _ => false

/-- Counted in `senatorPresentCount`. -/
def SenatorPC.inside : SenatorPC → Bool
  | .arrive .release | .visit _ | .leave .acquire | .leave (.present _) => true
  | _ => false

/-- Counted in `senatorLineCount`. -/
def SenatorPC.inLine : SenatorPC → Bool
  | .arrive .wait | .arrive (.leaveLine _) => true
  | _ => false

/-- Counted in the count `x` of the line `i`. -/
def Visit.inLine (v : Visit) (x : MV) (i : Int) : Bool :=
  match v.pc with
  | .line (.wait myLine) | .line (.leave myLine _) => x = countMV v.kind v.bribe ∧ i = myLine
  | _ => false

/-- Waiting in a line of the clerk `i`. -/
def Loc.inLine (x : MV) (i : Int) : Loc → Bool
  | .customer ⟨_, _, .visit v⟩ => v.inLine x i
  | .senator ⟨_, .visit v⟩ => v.inLine x i
  | _ => false

/-- **The processes that the variable counts.** -/
def Loc.counts (x : MV) (i : Int) (p : Loc) : Bool :=
  match x with
  | .customersPresentCount =>
    match p with
    | .customer c => c.pc.inside
    | _ => false
  | .passportOfficeOutsideLineCount =>
    match p with
    | .customer c => c.pc.inLine
    | _ => false
  | .senatorPresentCount =>
    match p with
    | .senator c => c.pc.inside
    | _ => false
  | .senatorLineCount =>
    match p with
    | .senator c => c.pc.inLine
    | _ => false
  | .lineCount _ | .bribeLineCount _ => p.inLine x i
  | _ => false

/-- The variables that count, at the places that exist. -/
def MV.Counted (x : MV) (i : Int) : Prop :=
  match x with
  | .customersPresentCount | .passportOfficeOutsideLineCount | .senatorPresentCount
  | .senatorLineCount => i = 0
  | .lineCount _ | .bribeLineCount _ => 0 ≤ i ∧ i < MAXCLERKS
  | _ => False

/-- A process counts for one or not at all. -/
def weight (x : MV) (i : Int) (p : Loc) : Int := if p.counts x i then 1 else 0

section Counts

variable (n : Nat) (a : Int) (r : Nat)

theorem Customer.inside_choose (c : Customer) : (c.choose r).pc.inside = true := by
  unfold choose
  split <;> rfl

theorem Customer.inLine_choose (c : Customer) : (c.choose r).pc.inLine = false := by
  unfold choose
  split <;> rfl

theorem Customer.inside_next (c : Customer)
    (h : ∀ v, c.request ≠ .Set .customersPresentCount 0 v) :
    (c.next n a r).pc.inside = c.pc.inside := by
  obtain ⟨me, past, pc⟩ := c
  cases pc with
  | checkIn p => cases p with
    | present b => cases b with
      | get => rfl
      | set temp => exact absurd rfl (h _)
    | _ => rfl
  | draw p => cases p <;> rfl
  | check p => cases p with
    | goOutside b | goInside b => cases b with
      | get => rfl
      | set temp => exact absurd rfl (h _)
    | joinLine b | leaveLine b => cases b <;> rfl
    | getWaitOutSide => by_cases ha : a = 0 <;> simp [next, Check.next, ha] <;> rfl
    | release present => exact inside_choose r _
    | _ => rfl
  | visit v =>
    simp only [next]
    split <;> rfl
  | recheck k bribe myLine p => cases p with
    | goOutside b | goInside b => cases b with
      | get => rfl
      | set temp => exact absurd rfl (h _)
    | joinLine b | leaveLine b => cases b <;> rfl
    | getWaitOutSide => by_cases ha : a = 0 <;> simp [next, Check.next, ha] <;> rfl
    | release present => cases present <;> rfl
    | _ => rfl
  | checkOut p => cases p with
    | present b => cases b with
      | get => rfl
      | set temp => exact absurd rfl (h _)
    | checkedOut b => cases b <;> rfl
    | _ => rfl
  | exited => rfl

theorem Customer.inLine_next (c : Customer)
    (h : ∀ v, c.request ≠ .Set .passportOfficeOutsideLineCount 0 v) :
    (c.next n a r).pc.inLine = c.pc.inLine := by
  obtain ⟨me, past, pc⟩ := c
  cases pc with
  | checkIn p => cases p with
    | present b => cases b <;> rfl
    | _ => rfl
  | draw p => cases p <;> rfl
  | check p => cases p with
    | joinLine b | leaveLine b => cases b with
      | get => rfl
      | set temp => exact absurd rfl (h _)
    | goOutside b | goInside b => cases b <;> rfl
    | getWaitOutSide => by_cases ha : a = 0 <;> simp [next, Check.next, ha] <;> rfl
    | release present => exact inLine_choose r _
    | _ => rfl
  | visit v =>
    simp only [next]
    split <;> rfl
  | recheck k bribe myLine p => cases p with
    | joinLine b | leaveLine b => cases b with
      | get => rfl
      | set temp => exact absurd rfl (h _)
    | goOutside b | goInside b => cases b <;> rfl
    | getWaitOutSide => by_cases ha : a = 0 <;> simp [next, Check.next, ha] <;> rfl
    | release present => cases present <;> rfl
    | _ => rfl
  | checkOut p => cases p with
    | present b | checkedOut b => cases b <;> rfl
    | _ => rfl
  | exited => rfl

theorem Senator.inside_choose (c : Senator) : (c.choose r).pc.inside = true := by
  unfold choose
  split <;> rfl

theorem Senator.inLine_choose (c : Senator) : (c.choose r).pc.inLine = false := by
  unfold choose
  split <;> rfl

theorem Senator.inside_next (c : Senator)
    (h : ∀ v, c.request ≠ .Set .senatorPresentCount 0 v) :
    (c.next n a r).pc.inside = c.pc.inside := by
  obtain ⟨me, pc⟩ := c
  cases pc with
  | draw p => cases p <;> rfl
  | arrive p => cases p with
    | enter b => cases b with
      | get => rfl
      | set temp => exact absurd rfl (h _)
    | joinLine b | leaveLine b => cases b <;> rfl
    | getSafe => by_cases ha : a = 0 <;> simp [next, Arrive.next, ha] <;> rfl
    | release => exact inside_choose r _
    | _ => rfl
  | visit v =>
    simp only [next]
    split
    · rfl
    · exact inside_choose r _
    · exact inside_choose r _
  | leave p => cases p with
    | present b => cases b with
      | get => rfl
      | set temp => exact absurd rfl (h _)
    | checkedOut b => cases b <;> rfl
    | _ => rfl
  | exited => rfl

theorem Senator.inLine_next (c : Senator)
    (h : ∀ v, c.request ≠ .Set .senatorLineCount 0 v) :
    (c.next n a r).pc.inLine = c.pc.inLine := by
  obtain ⟨me, pc⟩ := c
  cases pc with
  | draw p => cases p <;> rfl
  | arrive p => cases p with
    | joinLine b | leaveLine b => cases b with
      | get => rfl
      | set temp => exact absurd rfl (h _)
    | enter b => cases b <;> rfl
    | getSafe => by_cases ha : a = 0 <;> simp [next, Arrive.next, ha] <;> rfl
    | release => exact inLine_choose r _
    | _ => rfl
  | visit v =>
    simp only [next]
    split
    · rfl
    · exact inLine_choose r _
    · exact inLine_choose r _
  | leave p => cases p with
    | present b | checkedOut b => cases b <;> rfl
    | _ => rfl
  | exited => rfl

/-- The visits in a line are those that have joined it and have not left it. -/
def Outcome.inLine (k : Kind) (bribe : Bool) (x : MV) (i : Int) : Outcome → Bool
  | .at pc => (Visit.mk k bribe pc).inLine x i
  | _ => false

theorem Visit.inLine_next (v : Visit) {SSN : Int} {x : MV} {i : Int}
    (h : ∀ w, v.request SSN ≠ .Set x i w) :
    (v.next n a r).inLine v.kind v.bribe x i = v.inLine x i := by
  obtain ⟨k, bribe, p⟩ := v
  cases p with
  | line p => cases p with
    | join myLine b | leave myLine b => cases b with
      | get => rfl
      | set temp =>
        have hne : ¬ (x = countMV k bribe ∧ i = myLine) := fun ⟨hx, hi⟩ => by
          subst hx hi
          exact h _ rfl
        simp [next, Line.next, Outcome.inLine, inLine]
        grind
    | acquire =>
      simp only [next, Line.next, picked]
      split <;> rfl
    | getState i' myLine lineSize temp =>
      simp only [next, Line.next, picked]
      split <;> split <;> rfl
    | getMyState myLine | look myLine =>
      simp only [next, Line.next]
      split <;> rfl
    | _ => rfl
  | unlocked myLine p => cases p <;> rfl
  | talk myLine p => cases p with
    | wait => cases k <;> rfl
    | getPicture | getRejection =>
      simp only [next, Talk.next]
      split <;> rfl
    | _ => rfl

theorem Senator.lines_choose (c : Senator) (x : MV) (i : Int) :
    (Loc.senator (c.choose r)).inLine x i = false := by
  unfold choose
  split <;> rfl

theorem Customer.lines_visit (me : Person) (past : Bool) (v : Visit) (x : MV) (i : Int) :
    (Loc.customer ((Customer.mk me past (.visit v)).next n a r)).inLine x i =
      (v.next n a r).inLine v.kind v.bribe x i := by
  simp only [next]
  split <;> rename_i heq <;> rw [heq] <;> rfl

theorem Senator.lines_visit (me : Person) (v : Visit) (x : MV) (i : Int) :
    (Loc.senator ((Senator.mk me (.visit v)).next n a r)).inLine x i =
      (v.next n a r).inLine v.kind v.bribe x i := by
  simp only [next]
  split <;> rename_i heq <;> rw [heq]
  · rfl
  · exact lines_choose r _ x i
  · exact lines_choose r _ x i

theorem Customer.lines_next (c : Customer) {x : MV} {i : Int}
    (h : ∀ v, c.request ≠ .Set x i v) :
    (Loc.customer (c.next n a r)).inLine x i = (Loc.customer c).inLine x i := by
  obtain ⟨me, past, pc⟩ := c
  have hchoose : ∀ c : Customer, (Loc.customer (c.choose r)).inLine x i = false := fun c => by
    unfold choose
    split <;> rfl
  cases pc with
  | checkIn p | draw p | checkOut p =>
    simp only [next]
    split <;> rfl
  | check p =>
    simp only [next]
    split
    · rfl
    · exact hchoose _
  | visit v => exact (lines_visit n a r me past v x i).trans (v.inLine_next n a r h)
  | recheck k bribe myLine p =>
    simp only [next]
    split
    · rfl
    · unfold rechecked
      split <;> rfl
  | exited => rfl

theorem Senator.lines_next (c : Senator) {x : MV} {i : Int}
    (h : ∀ v, c.request ≠ .Set x i v) :
    (Loc.senator (c.next n a r)).inLine x i = (Loc.senator c).inLine x i := by
  obtain ⟨me, pc⟩ := c
  cases pc with
  | draw p | leave p =>
    simp only [next]
    split <;> rfl
  | arrive p =>
    simp only [next]
    split
    · rfl
    · exact lines_choose r _ x i
  | visit v => exact (lines_visit n a r me v x i).trans (v.inLine_next n a r h)
  | exited => rfl

/-- **What a call does not write does not count differently after it.** -/
theorem Loc.counts_next (p : Loc) {x : MV} {i : Int} (hx : x.Counted i)
    (h : ∀ v, p.request ≠ .Set x i v) : (p.next n a r).counts x i = p.counts x i := by
  cases x with
  | customersPresentCount =>
    cases hx
    cases p with
    | customer c => exact c.inside_next n a r h
    | _ => rfl
  | passportOfficeOutsideLineCount =>
    cases hx
    cases p with
    | customer c => exact c.inLine_next n a r h
    | _ => rfl
  | senatorPresentCount =>
    cases hx
    cases p with
    | senator c => exact c.inside_next n a r h
    | _ => rfl
  | senatorLineCount =>
    cases hx
    cases p with
    | senator c => exact c.inLine_next n a r h
    | _ => rfl
  | lineCount k | bribeLineCount k =>
    cases p with
    | customer c => exact c.lines_next n a r h
    | senator c => exact c.lines_next n a r h
    | _ => rfl
  | _ => cases hx

end Counts

/-! ### The calls that write a count -/

section Written

variable (n : Nat) {val : MV → Int → Int} {v : Int}

/-- A change by one, of a variable whose value is known. -/
theorem Bump.changes {b : Bump} {x : MV} {i d : Int} (h : b.request x i d = .Set x i v)
    (hb : b.claim x i val) : v = x.get val i + d := by
  obtain ⟨-, -, rfl⟩ := request_set h
  have htemp : x.get val i = v - d := hb
  omega

/-- A visit never holds the manager's lock. -/
theorem Visit.not_held_managerLock (w : Visit) : ¬ w.held .managerLock := by
  obtain ⟨k, bribe, p⟩ := w
  cases p with
  | line p => exact fun hm => nomatch hm.2
  | unlocked myLine p => exact id
  | talk myLine p => cases p <;> first | exact id | nofun

theorem Visit.not_set {w : Visit} {SSN : Int} {x : MV} {i : Int}
    (hx : x.guard = some .managerLock) (h : w.request SSN = .Set x i v) : False :=
  w.not_held_managerLock (w.writes h hx)

theorem Customer.inside_set (c : Customer) (h : c.request = .Set .customersPresentCount 0 v)
    (hc : (Loc.customer c).claim val) (r : Nat) :
    v + (if c.pc.inside then 1 else 0) =
      MV.customersPresentCount.get val 0 + (if (c.next n 0 r).pc.inside then 1 else 0) := by
  obtain ⟨me, past, pc⟩ := c
  cases pc with
  | checkIn p => cases p with
    | present b =>
      rw [Bump.changes h hc]
      cases b with
      | get => cases h
      | set temp => simp [next, CheckIn.next, CustomerPC.inside]
    | _ => cases h
  | draw p => cases p <;> cases h
  | check p | recheck _ _ _ p => cases p with
    | goOutside b | goInside b =>
      rw [Bump.changes h hc]
      cases b with
      | get => cases h
      | set temp => simp [next, Check.next, CustomerPC.inside, Check.inside]
    | joinLine b | leaveLine b => cases b <;> cases h
    | _ => cases h
  | visit w => exact (Visit.not_set rfl h).elim
  | checkOut p => cases p with
    | present b =>
      rw [Bump.changes h hc]
      cases b with
      | get => cases h
      | set temp => simp [next, CheckOut.next, CustomerPC.inside]
    | checkedOut b => cases b <;> cases h
    | _ => cases h
  | exited => cases h

theorem Customer.inLine_set (c : Customer)
    (h : c.request = .Set .passportOfficeOutsideLineCount 0 v)
    (hc : (Loc.customer c).claim val) (r : Nat) :
    v + (if c.pc.inLine then 1 else 0) =
      MV.passportOfficeOutsideLineCount.get val 0 +
        (if (c.next n 0 r).pc.inLine then 1 else 0) := by
  obtain ⟨me, past, pc⟩ := c
  cases pc with
  | checkIn p => cases p with
    | present b => cases b <;> cases h
    | _ => cases h
  | draw p => cases p <;> cases h
  | check p | recheck _ _ _ p => cases p with
    | joinLine b | leaveLine b =>
      rw [Bump.changes h hc]
      cases b with
      | get => cases h
      | set temp => simp [next, Check.next, CustomerPC.inLine, Check.inLine]
    | goOutside b | goInside b => cases b <;> cases h
    | _ => cases h
  | visit w => exact (Visit.not_set rfl h).elim
  | checkOut p => cases p with
    | present b | checkedOut b => cases b <;> cases h
    | _ => cases h
  | exited => cases h

theorem Senator.inside_set (c : Senator) (h : c.request = .Set .senatorPresentCount 0 v)
    (hc : (Loc.senator c).claim val) (r : Nat) :
    v + (if c.pc.inside then 1 else 0) =
      MV.senatorPresentCount.get val 0 + (if (c.next n 0 r).pc.inside then 1 else 0) := by
  obtain ⟨me, pc⟩ := c
  cases pc with
  | draw p => cases p <;> cases h
  | arrive p => cases p with
    | enter b =>
      rw [Bump.changes h hc.1]
      cases b with
      | get => cases h
      | set temp => simp [next, Arrive.next, SenatorPC.inside]
    | joinLine b | leaveLine b => cases b <;> cases h
    | _ => cases h
  | visit w => exact (Visit.not_set rfl h).elim
  | leave p => cases p with
    | present b =>
      rw [Bump.changes h hc]
      cases b with
      | get => cases h
      | set temp => simp [next, CheckOut.next, SenatorPC.inside]
    | checkedOut b => cases b <;> cases h
    | _ => cases h
  | exited => cases h

theorem Senator.inLine_set (c : Senator) (h : c.request = .Set .senatorLineCount 0 v)
    (hc : (Loc.senator c).claim val) (r : Nat) :
    v + (if c.pc.inLine then 1 else 0) =
      MV.senatorLineCount.get val 0 + (if (c.next n 0 r).pc.inLine then 1 else 0) := by
  obtain ⟨me, pc⟩ := c
  cases pc with
  | draw p => cases p <;> cases h
  | arrive p => cases p with
    | joinLine b =>
      rw [Bump.changes h hc.1]
      cases b with
      | get => cases h
      | set temp => simp [next, Arrive.next, SenatorPC.inLine]
    | leaveLine b =>
      rw [Bump.changes h hc]
      cases b with
      | get => cases h
      | set temp => simp [next, Arrive.next, SenatorPC.inLine]
    | enter b => cases b <;> cases h
    | _ => cases h
  | visit w => exact (Visit.not_set rfl h).elim
  | leave p => cases p with
    | present b | checkedOut b => cases b <;> cases h
    | _ => cases h
  | exited => cases h

/-- The counts of the lines are written by joining and leaving them. -/
theorem Visit.inLine_set (w : Visit) {SSN : Int} {k : Kind} {x : MV} {i : Int}
    (hx : x.guard = some (.lineLock k)) (h : w.request SSN = .Set x i v) (hw : w.claim val)
    (r : Nat) :
    v + (if w.inLine x i then 1 else 0) =
      x.get val i + (if (w.next n 0 r).inLine w.kind w.bribe x i then 1 else 0) := by
  obtain ⟨k', bribe, p⟩ := w
  cases p with
  | line p => cases p with
    | join myLine b | leave myLine b =>
      cases b with
      | get => cases h
      | set temp =>
        cases h
        rw [show temp = _ from (show MV.get val _ _ = temp from hw).symm]
        simp [next, Line.next, Outcome.inLine, inLine]
    | _ => cases h
  | unlocked myLine p => cases p <;> cases h <;> cases hx
  | talk myLine p => cases p with
    | acquire =>
      have hlock : acquireClerkLock k' myLine = .Set x i v := h
      unfold acquireClerkLock at hlock
      split at hlock <;> cases hlock
    | _ => cases h <;> cases hx

/-- Only the visitors of the clerks write the counts of their lines. -/
theorem Loc.lines_set (p : Loc) {k : Kind} {x : MV} {i : Int}
    (hx : x.guard = some (.lineLock k)) (h : p.request = .Set x i v) (hp : p.claim val)
    (r : Nat) :
    v + (if p.inLine x i then 1 else 0) =
      x.get val i + (if (p.next n 0 r).inLine x i then 1 else 0) := by
  have hheld : p.held (.lineLock k) := p.writes h hx
  cases p with
  | customer c =>
    obtain ⟨me, past, pc⟩ := c
    cases pc with
    | visit w =>
      have hw := w.inLine_set n hx h hp r
      rw [← Customer.lines_visit n 0 r me past w x i] at hw
      exact hw
    | exited => cases h
    | _ => exact nomatch hheld.2
  | senator c =>
    obtain ⟨me, pc⟩ := c
    cases pc with
    | visit w =>
      have hw := w.inLine_set n hx h hp r
      rw [← Senator.lines_visit n 0 r me w x i] at hw
      exact hw
    | exited => cases h
    | _ => exact nomatch hheld.2
  | _ =>
    have hwriter := Loc.writtenBy _ h
    cases x <;> cases hx <;> exact nomatch hwriter

end Written

theorem MV.Counted.range {x : MV} {i : Int} (h : x.Counted i) : 0 ≤ i ∧ i < x.size := by
  cases x with
  | lineCount k | bribeLineCount k => exact h
  | customersPresentCount | passportOfficeOutsideLineCount | senatorPresentCount
  | senatorLineCount =>
    cases h
    exact ⟨le_rfl, Int.zero_lt_one⟩
  | _ => exact h.elim

/-- **The six variables count their processes.** -/
theorem tallies (n : Nat) : Tallies (program n) Loc.claim MV.Counted weight where
  range _ _ h := h.range
  other x i p a r hx h := by
    unfold weight
    rw [show ((program n).next p a r).counts x i = p.counts x i from p.counts_next n a r hx h]
  write x i v p val r hx h hp := by
    have hget : x.get val i = val x i := if_pos hx.range
    have hwriter : x.writtenBy p = true := p.writtenBy h
    rw [← hget]
    cases x with
    | customersPresentCount =>
      cases hx
      cases p with
      | customer c => exact c.inside_set n h hp r
      | _ => exact nomatch hwriter
    | passportOfficeOutsideLineCount =>
      cases hx
      cases p with
      | customer c => exact c.inLine_set n h hp r
      | _ => exact nomatch hwriter
    | senatorPresentCount =>
      cases hx
      cases p with
      | senator c => exact c.inside_set n h hp r
      | _ => exact nomatch hwriter
    | senatorLineCount =>
      cases hx
      cases p with
      | senator c => exact c.inLine_set n h hp r
      | _ => exact nomatch hwriter
    | lineCount k => exact p.lines_set n (x := .lineCount k) rfl h hp r
    | bribeLineCount k => exact p.lines_set n (x := .bribeLineCount k) rfl h hp r
    | _ => exact hx.elim

end Nachos.Passport

import Nachos.Lib.Moves
import Nachos.Passport.Sound

/-!
# The passport office: the numbers that are drawn

Customers and senators draw their social security numbers from `SSNCount`, and the clerks of a
kind their lines from `myLine`. A process keeps the number it has drawn, and no two processes
have the same one.
-/

namespace Nachos.Passport

open Lib Lib.Monitor

set_option linter.unusedSectionVars false

/-- The number is drawn when the counter has been written back. -/
def Draw.drawn : Draw → Int → Option Int
  | .release, n => some n
  | _, _ => none

/-- The social security number of a process, as soon as it has one. -/
def Loc.SSN : Loc → Option Int
  | .customer c =>
    match c.pc with
    | .checkIn _ => none
    | .draw p => p.drawn c.me.SSN
    | _ => some c.me.SSN
  | .senator c =>
    match c.pc with
    | .draw p => p.drawn c.me.SSN
    | _ => some c.me.SSN
  | _ => none

/-- The line of a clerk, as soon as it has one. -/
def Clerk.line (c : Clerk) : Option Int :=
  match c.pc with
  | .draw p => p.drawn c.myLine
  | _ => some c.myLine

/-- The line of a clerk of this kind. -/
def Loc.line (k : Kind) : Loc → Option Int
  | .clerk c => if c.kind = k then c.line else none
  | _ => none

section Next

variable (n : Nat) (a : Int) (r : Nat)

theorem Customer.SSN_choose (c : Customer) : (Loc.customer (c.choose r)).SSN = some c.me.SSN := by
  unfold choose
  split <;> rfl

theorem Senator.SSN_choose (c : Senator) : (Loc.senator (c.choose r)).SSN = some c.me.SSN := by
  unfold choose
  split <;> rfl

/-- The number is kept by each call but the one that draws it. -/
theorem Loc.SSN_next (p : Loc) (h : ∀ i v, p.request ≠ .Set .SSNCount i v) :
    (p.next n a r).SSN = p.SSN := by
  cases p with
  | customer c =>
    obtain ⟨me, past, pc⟩ := c
    cases pc with
    | checkIn p =>
      simp only [next, Customer.next]
      split <;> rfl
    | draw p => cases p with
      | set => exact absurd rfl (h _ _)
      | _ => rfl
    | check p =>
      simp only [next, Customer.next]
      split
      · rfl
      · exact Customer.SSN_choose r _
    | visit v =>
      simp only [next, Customer.next]
      split <;> rfl
    | recheck k bribe myLine p =>
      simp only [next, Customer.next]
      split
      · rfl
      · unfold Customer.rechecked
        split
        · rfl
        · cases bribe <;> rfl
    | checkOut p =>
      simp only [next, Customer.next]
      split <;> rfl
    | exited => rfl
  | senator c =>
    obtain ⟨me, pc⟩ := c
    cases pc with
    | draw p => cases p with
      | set => exact absurd rfl (h _ _)
      | _ => rfl
    | arrive p =>
      simp only [next, Senator.next]
      split
      · rfl
      · exact Senator.SSN_choose r _
    | visit v =>
      simp only [next, Senator.next]
      split
      · rfl
      · exact Senator.SSN_choose r _
      · exact Senator.SSN_choose r _
    | leave p =>
      simp only [next, Senator.next]
      split <;> rfl
    | exited => rfl
  | _ => rfl

/-- The line is kept by each call but the one that draws it. -/
theorem Clerk.line_next (c : Clerk) (h : ∀ i v, c.request ≠ .Set (.myLine c.kind) i v) :
    (c.next n a r).line = c.line := by
  obtain ⟨k, myLine, money, fromLine, SSN, pc⟩ := c
  cases pc with
  | draw p => cases p with
    | set => exact absurd rfl (h _ _)
    | _ => rfl
  | senator p => cases p with
    | release waiting => cases waiting <;> rfl
    | _ => rfl
  | call p => cases p with
    | onBreak p => cases p with
      | releaseEnd => rfl
      | _ =>
        simp only [next, nextCall]
        split <;> rfl
    | getBribeLineCount | getLineCount =>
      simp only [next, nextCall]
      split <;> rfl
    | _ => rfl
  | serve p =>
    simp only [next]
    repeat' split
    all_goals rfl
  | exited => rfl

end Next

/-- Who writes `SSNCount`. -/
theorem Loc.draws_SSN (n : Nat) {p : Loc} {i v : Int} {val : MV → Int → Int} (r : Nat)
    (h : p.request = .Set .SSNCount i v) (hp : p.claim val) :
    i = 0 ∧ v = val .SSNCount 0 + 1 ∧ p.SSN = none ∧
      (p.next n 0 r).SSN = some (val .SSNCount 0) := by
  have hget : MV.SSNCount.get val 0 = val .SSNCount 0 := if_pos ⟨le_rfl, Int.zero_lt_one⟩
  have hvisit : ∀ (w : Visit) SSN, w.request SSN ≠ .Set .SSNCount i v := by
    intro w SSN hw
    rcases w.writtenBy hw with ⟨k, hx | hx | hx | hx⟩ | hx <;> cases hx
  cases p with
  | customer c =>
    obtain ⟨me, past, pc⟩ := c
    cases pc with
    | draw p => cases p with
      | set =>
        cases h
        rw [← hget, show MV.SSNCount.get val 0 = me.SSN from hp]
        exact ⟨rfl, rfl, rfl, rfl⟩
      | _ => cases h
    | visit w => exact absurd h (hvisit w _)
    | checkIn p => cases p with
      | present b => cases (Bump.request_set h).1
      | _ => cases h
    | check p | recheck _ _ _ p => cases p with
      | goOutside b | joinLine b | goInside b | leaveLine b => cases (Bump.request_set h).1
      | _ => cases h
    | checkOut p => cases p with
      | present b | checkedOut b => cases (Bump.request_set h).1
      | _ => cases h
    | exited => cases h
  | senator c =>
    obtain ⟨me, pc⟩ := c
    cases pc with
    | draw p => cases p with
      | set =>
        cases h
        rw [← hget, show MV.SSNCount.get val 0 = me.SSN from hp]
        exact ⟨rfl, rfl, rfl, rfl⟩
      | _ => cases h
    | visit w => exact absurd h (hvisit w _)
    | arrive p => cases p with
      | joinLine b | leaveLine b | enter b => cases (Bump.request_set h).1
      | _ => cases h
    | leave p => cases p with
      | present b | checkedOut b => cases (Bump.request_set h).1
      | _ => cases h
    | exited => cases h
  | _ => exact nomatch Loc.writtenBy _ h

/-- Social security numbers are drawn. -/
theorem draws_SSN (n : Nat) : Draws (program n) Loc.claim .SSNCount Loc.SSN where
  range := Nat.one_pos
  write _ _ _ _ r h hp := Loc.draws_SSN n r h hp
  other p a r h := p.SSN_next n a r h

/-- Lines are drawn, by the clerks of each kind. -/
theorem draws_line (n : Nat) (k : Kind) : Draws (program n) Loc.claim (.myLine k) (Loc.line k) where
  range := Nat.one_pos
  write p i v val r h hp := by
    have hget : MV.get val (.myLine k) 0 = val (.myLine k) 0 := if_pos ⟨le_rfl, Int.zero_lt_one⟩
    have hwriter := Loc.writtenBy p h
    cases p with
    | clerk c =>
      obtain ⟨k', myLine, money, fromLine, SSN, pc⟩ := c
      have hset : (Clerk.mk k' myLine money fromLine SSN pc).request = .Set (.myLine k) i v := h
      cases pc with
      | draw p => cases p with
        | set =>
          cases h
          rw [← hget, show MV.get val (.myLine _) 0 = myLine from hp]
          exact ⟨rfl, rfl, if_pos rfl, if_pos rfl⟩
        | _ => cases h
      | senator p => cases p <;> cases h
      | call p => cases p with
        | acquireClerk => exact absurd h not_set_acquireClerkLock
        | onBreak p => cases p <;> cases h
        | _ => cases h
      | serve p => cases p <;> cases h
      | exited => cases h
    | _ => cases hwriter
  other p a r h := by
    cases p with
    | clerk c =>
      show (if (c.next n a r).kind = k then (c.next n a r).line else none) =
        if c.kind = k then c.line else none
      rw [c.next_kind n a r]
      split
      · rename_i hk
        subst hk
        exact c.line_next n a r h
      · rfl
    | _ => rfl

end Nachos.Passport

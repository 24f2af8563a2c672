import Nachos.Lib.Monitor

/-!
# The passport office: what its programs share

The locks, condition variables and monitor variables that `passportSetup` creates, with the
sizes of the variables. The four kinds of clerks have a set of their own each; a set is
named here by its kind.

What `applicationClerkLock[myLine]` is for a number outside of the array, the source does not
say: a thread that asks for such a lock is not followed any further (`acquireClerkLock`).
-/

namespace Nachos.Passport

open Lib.Monitor

def MAXCLERKS : Nat := 5
def MAXCUSTOMERS : Nat := 100
def MAXSENATORS : Nat := 50
def CUSTOMERCOUNT : Int := 2
def SENATORCOUNT : Int := 1

/-! The states of a clerk. -/

def AVAILABLE : Int := 0
def SIGNALEDCUSTOMER : Int := 1
def BUSY : Int := 2
def ONBREAK : Int := 3

/-- The kinds of clerks. -/
inductive Kind where
  | application
  | picture
  | passport
  | cashier
deriving DecidableEq, Repr

/-- The kind that the manager looks after next. -/
def Kind.next : Kind → Option Kind
  | .application => some .picture
  | .picture => some .passport
  | .passport => some .cashier
  | .cashier => none

inductive Lock where
  | lineLock (k : Kind)
  | clerkLock (k : Kind) (i : Int)
  | managerLock
  | SSNLock
  | myLineLock (k : Kind)
deriving DecidableEq

inductive CV where
  | outsideLineCV
  | senatorLineCV
  | lineCV (k : Kind) (i : Int)
  | bribeLineCV (k : Kind) (i : Int)
  | clerkCV (k : Kind) (i : Int)
  | breakCV (k : Kind)
deriving DecidableEq

/-- The lock that a condition variable is used with. -/
def CV.lock : CV → Lock
  | .outsideLineCV | .senatorLineCV => .managerLock
  | .lineCV k _ | .bribeLineCV k _ | .breakCV k => .lineLock k
  | .clerkCV k i => .clerkLock k i

inductive MV where
  | clerkState (k : Kind)
  | lineCount (k : Kind)
  | bribeLineCount (k : Kind)
  | sharedDataSSN (k : Kind)
  | sharedDataPicture
  | applicationCompletion
  | pictureCompletion
  | passportCompletion
  | passportPunishment
  | cashierRejection
  | doneCompletely
  | SSNCount
  | myLine (k : Kind)
  | customersPresentCount
  | senatorPresentCount
  | checkedOutCount
  | senatorLineCount
  | passportOfficeOutsideLineCount
  | senatorSafeToEnter
  | senatorPresentWaitOutSide
  | THEEND
  | STARTPASSPORT
  | STOPPASS
deriving DecidableEq

/-- The sizes given to `CreateMV`. -/
def MV.size : MV → Nat
  | .clerkState _ | .lineCount _ | .bribeLineCount _ | .sharedDataPicture => MAXCLERKS
  | .sharedDataSSN .cashier => MAXCUSTOMERS + MAXSENATORS
  | .sharedDataSSN _ => MAXCLERKS
  | .applicationCompletion | .pictureCompletion | .passportCompletion | .passportPunishment
  | .cashierRejection | .doneCompletely => MAXCUSTOMERS + MAXSENATORS
  | _ => 1

abbrev Request := Lib.Monitor.Request Lock CV MV

/-- `Acquire(applicationClerkLock[i])`. Outside of the array the thread stops here. -/
def acquireClerkLock (k : Kind) (i : Int) : Request :=
  if 0 ≤ i ∧ i < MAXCLERKS then .Acquire (.clerkLock k i) else .Exit

/-- `temp = Get(x, i); temp++; Set(x, i, temp)`, or with `temp--`: what is done next. -/
inductive Bump where
  | get
  | set (temp : Int)
deriving DecidableEq

def Bump.request (x : MV) (i d : Int) : Bump → Request
  | .get => .Get x i
  | .set temp => .Set x i (temp + d)

/-- Where a change of a variable goes on, and what it goes on to when it is done. -/
def Bump.next {α : Type} (here : Bump → α) (done : α) (answer : Int) : Bump → α
  | .get => here (.set answer)
  | .set _ => done

section Bump

variable {α : Type} (here : Bump → α) (done : α) (answer temp : Int)

@[simp] theorem Bump.next_get : Bump.get.next here done answer = here (.set answer) := rfl

@[simp] theorem Bump.next_set : (Bump.set temp).next here done answer = done := rfl

end Bump

/-- A number is drawn from a counter under its lock. -/
inductive Draw where
  | acquire
  | get
  | set
  | release
deriving DecidableEq

def Draw.request (l : Lock) (x : MV) (drawn : Int) : Draw → Request
  | .acquire => .Acquire l
  | .get => .Get x 0
  | .set => .Set x 0 (drawn + 1)
  | .release => .Release l

/-- Where the drawing goes on; `none` when it returns. -/
def Draw.next : Draw → Option Draw
  | .acquire => some .get
  | .get => some .set
  | .set => some .release
  | .release => none

end Nachos.Passport

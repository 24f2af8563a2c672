import Nachos.Passport.People
import Nachos.Passport.Staff

/-!
# The passport office

All programs at one lock server: any processes that run them, with one manager, in any
interleaving of their server calls.
-/

namespace Nachos.Passport

open Lib.Monitor

/-- What a process runs, with the random numbers it draws at its start. -/
inductive Process where
  | customer (r₁ r₂ : Nat)
  | senator (r₁ r₂ : Nat)
  | clerk (k : Kind)
  | manager
  | stopPass
deriving DecidableEq

/-- Where a process is. -/
inductive Loc where
  | customer (c : Customer)
  | senator (c : Senator)
  | clerk (c : Clerk)
  | manager (pc : ManagerPC)
  /-- `stopPass` has set `STOPPASS`, or is about to. -/
  | stopPass (done : Bool)

/-- `money = (Rand()%4)*500 + 100` and `appClerkFirst = Rand() % 2`. -/
def Person.new (r₁ r₂ : Nat) : Person where
  money := (r₁ % 4) * 500 + 100
  appClerkFirst := r₂ % 2 ≠ 0

/-- The first server call of a process. -/
def Process.start : Process → Loc
  | .customer r₁ r₂ => .customer { me := .new r₁ r₂ }
  | .senator r₁ r₂ => .senator { me := .new r₁ r₂ }
  | .clerk k => .clerk { kind := k }
  | .manager => .manager (.senators .acquire)
  | .stopPass => .stopPass false

namespace Loc

def request : Loc → Request
  | .customer c => c.request
  | .senator c => c.request
  | .clerk c => c.request
  | .manager pc => pc.request
  | .stopPass false => .Set .STOPPASS 0 1
  | .stopPass true => .Exit

def next (CLERKCOUNT : Nat) (p : Loc) (answer : Int) (r : Nat) : Loc :=
  match p with
  | .customer c => .customer (c.next CLERKCOUNT answer r)
  | .senator c => .senator (c.next CLERKCOUNT answer r)
  | .clerk c => .clerk (c.next CLERKCOUNT answer r)
  | .manager pc => .manager (pc.next CLERKCOUNT answer)
  | .stopPass _ => .stopPass true

end Loc

/-- The programs, for one number of clerks of each kind. -/
def program (CLERKCOUNT : Nat) : Program Lock CV MV Loc where
  request := Loc.request
  next := Loc.next CLERKCOUNT
  size := MV.size

abbrev State (T : Type) := Lib.Monitor.State T Lock CV MV Loc

/-- The processes of a day, one of them at most the manager, and whether they were started by
`startPass`. -/
structure Office (T : Type) where
  process : T → Process
  STARTPASSPORT : Bool
  manager_unique : ∀ t u, process t = .manager → process u = .manager → t = u

namespace Office

variable {T : Type} [DecidableEq T] (o : Office T)

/-- `passportSetup`: `CLERKCOUNT` follows from `STARTPASSPORT`. -/
def CLERKCOUNT : Nat := if o.STARTPASSPORT then 5 else 1

/-- The variables as `initialPassportSetup` and `startPass` set them. -/
def val : MV → Int → Int
  | .clerkState _, _ => BUSY
  | .STARTPASSPORT, _ => if o.STARTPASSPORT then 1 else 0
  | _, _ => 0

/-- No process has made a call yet. -/
def init : State T := .init o.val fun t => (o.process t).start

/-- The next call of a process. -/
def step : State T → T × Nat → Option (State T) := (program o.CLERKCOUNT).step

def Step : State T → T × Nat → State T → Prop := (program o.CLERKCOUNT).Step

end Office

end Nachos.Passport

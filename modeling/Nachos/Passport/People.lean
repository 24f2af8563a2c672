import Nachos.Passport.Visit

/-!
# The passport office: customers and senators

`Customer` and `Senator` with the functions they call, cut at the calls of the server.

`bribes` and `pastCheck` are no variables of the programs. The first adds up what was deducted
as bribes; the second tells whether the customer has returned from `customerCheckSenator` to go
on to a clerk, and has not gone outside or checked out since.
-/

namespace Nachos.Passport

/-- The local variables of `Customer` and `Senator`: `done` are the four flags `appClerkDone`,
`pictureClerkDone`, `passportClerkDone` and `cashierDone`. -/
structure Person where
  SSN : Int := -1
  money : Int
  appClerkFirst : Bool
  done : Kind → Bool := fun _ => false
  bribes : Int := 0

namespace Person

/-- The clerk to go to next, in the order of the `if`s. -/
def choice (me : Person) : Option Kind :=
  if !me.done .application && (me.appClerkFirst || me.done .picture) then some .application
  else if !me.done .picture then some .picture
  else if !me.done .passport then some .passport
  else if !me.done .cashier then some .cashier
  else none

/-- `bribe = (*money > 500) && (Rand()%2) && !VIP`. -/
def bribe (me : Person) (VIP : Bool) (r : Nat) : Bool :=
  me.money > 500 ∧ r % 2 ≠ 0 ∧ !VIP

/-- The interaction has returned. -/
def setDone (me : Person) (k : Kind) (result : Bool) : Person :=
  { me with done := Function.update me.done k result }

/-- `SSN = Get(SSNCount, 0)`. -/
def drawn (me : Person) (p : Draw) (answer : Int) : Person :=
  match p with
  | .get => { me with SSN := answer }
  | _ => me

/-- `*money -= 500`. -/
def payBribe (me : Person) (amount : Int) : Person :=
  { me with money := me.money - amount, bribes := me.bribes + amount }

/-- A step of a visit takes money. -/
def pay (me : Person) (v : Visit) (answer : Int) : Person :=
  { me.payBribe (v.bribePaid answer) with
    money := me.money - v.bribePaid answer - v.feePaid answer }

end Person

/-- `customerCheckOut` and `senatorLeavePassportOffice`, which count in different variables. -/
inductive CheckOut where
  | acquire
  | present (b : Bump)
  | checkedOut (b : Bump)
  | release
deriving DecidableEq

namespace CheckOut

def request (x : MV) : CheckOut → Request
  | .acquire => .Acquire .managerLock
  | .present b => b.request x 0 (-1)
  | .checkedOut b => b.request .checkedOutCount 0 1
  | .release => .Release .managerLock

/-- Where the check-out goes on; `none` when it ends in `Exit`. -/
def next (answer : Int) : CheckOut → Option CheckOut
  | .acquire => some (.present .get)
  | .present b => some (b.next .present (.checkedOut .get) answer)
  | .checkedOut b => some (b.next .checkedOut .release answer)
  | .release => none

/-- The step by which it leaves the counted ones. -/
def leaves : CheckOut → Bool
  | .present (.set _) => true
  | _ => false

end CheckOut

/-! ### Customers -/

/-- `customerCheckIn` up to the social security number. -/
inductive CheckIn where
  | acquire
  | present (b : Bump)
  | release
deriving DecidableEq

namespace CheckIn

def request : CheckIn → Request
  | .acquire => .Acquire .managerLock
  | .present b => b.request .customersPresentCount 0 1
  | .release => .Release .managerLock

/-- Where the check-in goes on; `none` when the number is drawn next. -/
def next (answer : Int) : CheckIn → Option CheckIn
  | .acquire => some (.present .get)
  | .present b => some (b.next .present .release answer)
  | .release => none

end CheckIn

/-- `customerCheckSenator`, with `customerSenatorPresentWaitOutside`. -/
inductive Check where
  | acquire
  | getWaitOutSide
  | goOutside (b : Bump)
  | joinLine (b : Bump)
  | wait
  | goInside (b : Bump)
  | leaveLine (b : Bump)
  | release (present : Bool)
deriving DecidableEq

namespace Check

def request : Check → Request
  | .acquire => .Acquire .managerLock
  | .getWaitOutSide => .Get .senatorPresentWaitOutSide 0
  | .goOutside b => b.request .customersPresentCount 0 (-1)
  | .joinLine b => b.request .passportOfficeOutsideLineCount 0 1
  | .wait => .Wait .outsideLineCV .managerLock
  | .goInside b => b.request .customersPresentCount 0 1
  | .leaveLine b => b.request .passportOfficeOutsideLineCount 0 (-1)
  | .release _ => .Release .managerLock

/-- Where the check goes on; `none` when it returns. -/
def next (answer : Int) : Check → Option Check
  | .acquire => some .getWaitOutSide
  | .getWaitOutSide => if answer ≠ 0 then some (.goOutside .get) else some (.release false)
  | .goOutside b => some (b.next .goOutside (.joinLine .get) answer)
  | .joinLine b => some (b.next .joinLine .wait answer)
  | .wait => some (.goInside .get)
  | .goInside b => some (b.next .goInside (.leaveLine .get) answer)
  | .leaveLine b => some (b.next .leaveLine (.release true) answer)
  | .release _ => none

/-- The step by which the customer goes outside. -/
def goesOutside : Check → Bool
  | .goOutside (.set _) => true
  | _ => false

end Check

inductive CustomerPC where
  | checkIn (p : CheckIn)
  | draw (p : Draw)
  /-- The check at the top of the loop. -/
  | check (p : Check)
  | visit (v : Visit)
  /-- The check of a customer that was woken in line, but not signalled by its clerk. -/
  | recheck (k : Kind) (bribe : Bool) (myLine : Int) (p : Check)
  | checkOut (p : CheckOut)
  | exited
deriving DecidableEq

structure Customer where
  me : Person
  pastCheck : Bool := false
  pc : CustomerPC := .checkIn .acquire

namespace Customer

def request (c : Customer) : Request :=
  match c.pc with
  | .checkIn p => p.request
  | .draw p => p.request .SSNLock .SSNCount c.me.SSN
  | .check p => p.request
  | .visit v => v.request c.me.SSN
  | .recheck _ _ _ p => p.request
  | .checkOut p => p.request .customersPresentCount
  | .exited => .Exit

/-- The check at the top of the loop has returned: to the next clerk, or out. -/
def choose (c : Customer) (r : Nat) : Customer :=
  match c.me.choice with
  | some k => { c with pastCheck := true, pc := .visit (interaction k (c.me.bribe false r)) }
  | none => { c with pastCheck := true, pc := .checkOut .acquire }

/-- The check in the line has returned. A customer that did not wait outside goes on to the
counter, and does not look at the line again. -/
def rechecked (c : Customer) (k : Kind) (bribe : Bool) (myLine : Int) (present : Bool) : Customer :=
  if present then { c with me := c.me.setDone k false, pc := .check .acquire }
  else
    { c with
      me := if bribe then c.me.payBribe 500 else c.me
      pc := .visit ⟨k, bribe, .unlocked myLine .setBusy⟩ }

def next (CLERKCOUNT : Nat) (c : Customer) (answer : Int) (r : Nat) : Customer :=
  match c.pc with
  | .checkIn p =>
    match p.next answer with
    | some q => { c with pc := .checkIn q }
    | none => { c with pc := .draw .acquire }
  | .draw p =>
    match p.next with
    | some q => { c with me := c.me.drawn p answer, pc := .draw q }
    | none => { c with pc := .check .acquire }
  | .check p =>
    match p.next answer with
    | some q => { c with pastCheck := c.pastCheck && !p.goesOutside, pc := .check q }
    | none => c.choose r
  | .visit v =>
    match v.next CLERKCOUNT answer r with
    | .at pc => { c with me := c.me.pay v answer, pc := .visit { v with pc := pc } }
    | .checkSenator myLine => { c with pc := .recheck v.kind v.bribe myLine .acquire }
    | .returned result => { c with me := c.me.setDone v.kind result, pc := .check .acquire }
  | .recheck k bribe myLine p =>
    match p.next answer with
    | some q =>
      { c with pastCheck := c.pastCheck && !p.goesOutside, pc := .recheck k bribe myLine q }
    | none => c.rechecked k bribe myLine (p = .release true)
  | .checkOut p =>
    match p.next answer with
    | some q => { c with pastCheck := c.pastCheck && !p.leaves, pc := .checkOut q }
    | none => { c with pc := .exited }
  | .exited => c

end Customer

/-! ### Senators -/

/-- `senatorArriveAtPassportOffice`, after the social security number. -/
inductive Arrive where
  | acquire
  | getSafe
  | joinLine (b : Bump)
  | wait
  | leaveLine (b : Bump)
  | enter (b : Bump)
  | release
deriving DecidableEq

namespace Arrive

def request : Arrive → Request
  | .acquire => .Acquire .managerLock
  | .getSafe => .Get .senatorSafeToEnter 0
  | .joinLine b => b.request .senatorLineCount 0 1
  | .wait => .Wait .senatorLineCV .managerLock
  | .leaveLine b => b.request .senatorLineCount 0 (-1)
  | .enter b => b.request .senatorPresentCount 0 1
  | .release => .Release .managerLock

/-- Where the arrival goes on; `none` when it returns. -/
def next (answer : Int) : Arrive → Option Arrive
  | .acquire => some .getSafe
  | .getSafe => if answer = 0 then some (.joinLine .get) else some (.enter .get)
  | .joinLine b => some (b.next .joinLine .wait answer)
  | .wait => some (.leaveLine .get)
  | .leaveLine b => some (b.next .leaveLine .getSafe answer)
  | .enter b => some (b.next .enter .release answer)
  | .release => none

end Arrive

inductive SenatorPC where
  | draw (p : Draw)
  | arrive (p : Arrive)
  | visit (v : Visit)
  | leave (p : CheckOut)
  | exited
deriving DecidableEq

structure Senator where
  me : Person
  pc : SenatorPC := .draw .acquire

namespace Senator

def request (c : Senator) : Request :=
  match c.pc with
  | .draw p => p.request .SSNLock .SSNCount c.me.SSN
  | .arrive p => p.request
  | .visit v => v.request c.me.SSN
  | .leave p => p.request .senatorPresentCount
  | .exited => .Exit

/-- The top of the loop `while(!cashierDone)`. -/
def choose (c : Senator) (r : Nat) : Senator :=
  match if c.me.done .cashier then none else c.me.choice with
  | some k => { c with pc := .visit (interaction k (c.me.bribe true r)) }
  | none => { c with pc := .leave .acquire }

def next (CLERKCOUNT : Nat) (c : Senator) (answer : Int) (r : Nat) : Senator :=
  match c.pc with
  | .draw p =>
    match p.next with
    | some q => { c with me := c.me.drawn p answer, pc := .draw q }
    | none => { c with pc := .arrive .acquire }
  | .arrive p =>
    match p.next answer with
    | some q => { c with pc := .arrive q }
    | none => c.choose r
  | .visit v =>
    match v.next CLERKCOUNT answer r with
    | .at pc => { c with me := c.me.pay v answer, pc := .visit { v with pc := pc } }
    -- `if(true) return 0;`
    | .checkSenator _ => { c with me := c.me.setDone v.kind false }.choose r
    | .returned result => { c with me := c.me.setDone v.kind result }.choose r
  | .leave p =>
    match p.next answer with
    | some q => { c with pc := .leave q }
    | none => { c with pc := .exited }
  | .exited => c

end Senator

end Nachos.Passport

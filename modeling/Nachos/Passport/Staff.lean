import Nachos.Passport.Basic

/-!
# The passport office: clerks and the manager

`ApplicationClerk`, `PictureClerk`, `PassportClerk` and `Cashier` are one loop, which differs
only in what is said at the counter; the manager's loop goes round its three duties. All are
cut at the calls of the server.
-/

namespace Nachos.Passport

/-! ### Clerks -/

/-- `clerkCheckForSenator`. -/
inductive SenatorCheck where
  | acquire
  | getWaitOutSide
  | getSafe (temp1 : Int)
  | release (waiting : Bool)
deriving DecidableEq

namespace SenatorCheck

def request : SenatorCheck → Request
  | .acquire => .Acquire .managerLock
  | .getWaitOutSide => .Get .senatorPresentWaitOutSide 0
  | .getSafe _ => .Get .senatorSafeToEnter 0
  | .release _ => .Release .managerLock

end SenatorCheck

/-- `applicationClerkcheckAndGoOnBreak` and its siblings. -/
inductive Break where
  | getTHEEND
  | getState (i : Nat)
  | setOnBreak
  | wait
  | getTHEENDBack
  | setBusy
  /-- The day is over: `Set(state, myLine, ONBREAK)`, `Release`, `Exit`. -/
  | setEnd
  | releaseEnd
deriving DecidableEq

/-- Choosing a customer, under the line lock. -/
inductive Call where
  | acquire
  | getBribeLineCount
  | signalBribe
  | getLineCount
  | signalLine
  | setSignaled
  | onBreak (p : Break)
  /-- Nobody was in line. -/
  | release
  /-- A customer was signalled: the clerk's own lock first, then the line lock is released. -/
  | acquireClerk
  | releaseLine
deriving DecidableEq

/-- At the counter. -/
inductive Serve where
  | wait
  | getSSN
  /-- The picture clerk. -/
  | resetPicture
  | getPicture
  | signalShow
  | waitAnswer
  | getAnswer
  | setPictureCompletion
  /-- The passport clerk. -/
  | getApplicationCompletion
  | getPictureCompletion
  | setPunishment (v : Int)
  | setPassportCompletion
  /-- The cashier. -/
  | getPassportCompletion
  | setRejection (v : Int)
  | signalCertified
  | waitMoney
  | setDone
  /-- All kinds; the application is filed after the lock is released. -/
  | signal
  | release
  | setApplicationCompletion
deriving DecidableEq

inductive ClerkPC where
  | draw (p : Draw)
  | senator (p : SenatorCheck)
  | call (p : Call)
  | serve (p : Serve)
  | exited
deriving DecidableEq

structure Clerk where
  kind : Kind
  myLine : Int := 0
  money : Int := 0
  /-- 0 no line, 1 bribe line, 2 regular line. -/
  customerFromLine : Int := 0
  customerSSN : Int := 0
  pc : ClerkPC := .draw .acquire
deriving DecidableEq

namespace Break

def request (k : Kind) (myLine : Int) : Break → Request
  | .getTHEEND | .getTHEENDBack => .Get .THEEND 0
  | .getState i => .Get (.clerkState k) i
  | .setOnBreak | .setEnd => .Set (.clerkState k) myLine ONBREAK
  | .wait => .Wait (.breakCV k) (.lineLock k)
  | .setBusy => .Set (.clerkState k) myLine BUSY
  | .releaseEnd => .Release (.lineLock k)

/-- Where the break goes on; `none` when it returns. `r` decides on going when one may go. -/
def next (CLERKCOUNT : Nat) (myLine answer : Int) (r : Nat) : Break → Option Break
  | .getTHEEND => if answer ≠ 0 then some .setEnd else some (.getState 0)
  | .getState i =>
    if (i : Int) ≠ myLine ∧ (answer = AVAILABLE ∨ answer = BUSY) then
      if r % 100 < 25 then some .setOnBreak else none
    else if i + 1 < CLERKCOUNT then some (.getState (i + 1))
    else none
  | .setOnBreak => some .wait
  | .wait => some .getTHEENDBack
  | .getTHEENDBack => if answer ≠ 0 then some .setEnd else some .setBusy
  | .setBusy => none
  | .setEnd => some .releaseEnd
  | .releaseEnd => some .releaseEnd

end Break

namespace Clerk

def request (c : Clerk) : Request :=
  match c.pc with
  | .draw p => p.request (.myLineLock c.kind) (.myLine c.kind) c.myLine
  | .senator p => p.request
  | .call p =>
    match p with
    | .acquire => .Acquire (.lineLock c.kind)
    | .getBribeLineCount => .Get (.bribeLineCount c.kind) c.myLine
    | .signalBribe => .Signal (.bribeLineCV c.kind c.myLine) (.lineLock c.kind)
    | .getLineCount => .Get (.lineCount c.kind) c.myLine
    | .signalLine => .Signal (.lineCV c.kind c.myLine) (.lineLock c.kind)
    | .setSignaled => .Set (.clerkState c.kind) c.myLine SIGNALEDCUSTOMER
    | .onBreak p => p.request c.kind c.myLine
    | .release | .releaseLine => .Release (.lineLock c.kind)
    | .acquireClerk => acquireClerkLock c.kind c.myLine
  | .serve p =>
    match p with
    | .wait | .waitAnswer | .waitMoney =>
      .Wait (.clerkCV c.kind c.myLine) (.clerkLock c.kind c.myLine)
    | .getSSN => .Get (.sharedDataSSN c.kind) c.myLine
    | .resetPicture => .Set .sharedDataPicture c.myLine 0
    | .getPicture | .getAnswer => .Get .sharedDataPicture c.myLine
    | .signalShow | .signalCertified | .signal =>
      .Signal (.clerkCV c.kind c.myLine) (.clerkLock c.kind c.myLine)
    | .setPictureCompletion => .Set .pictureCompletion c.customerSSN 1
    | .getApplicationCompletion => .Get .applicationCompletion c.customerSSN
    | .getPictureCompletion => .Get .pictureCompletion c.customerSSN
    | .setPunishment v => .Set .passportPunishment c.customerSSN v
    | .setPassportCompletion => .Set .passportCompletion c.customerSSN 1
    | .getPassportCompletion => .Get .passportCompletion c.customerSSN
    | .setRejection v => .Set .cashierRejection c.customerSSN v
    | .setDone => .Set .doneCompletely c.customerSSN 1
    | .release => .Release (.clerkLock c.kind c.myLine)
    | .setApplicationCompletion => .Set .applicationCompletion c.customerSSN 1
  | .exited => .Exit

def goTo (c : Clerk) (pc : ClerkPC) : Clerk := { c with pc := pc }

/-- Where a call goes on. -/
def nextCall (CLERKCOUNT : Nat) (c : Clerk) (answer : Int) (r : Nat) : Call → Clerk
  | .acquire => c.goTo (.call .getBribeLineCount)
  | .getBribeLineCount =>
    if answer > 0 then { c with customerFromLine := 1, pc := .call .signalBribe }
    else c.goTo (.call .getLineCount)
  | .getLineCount =>
    if answer > 0 then { c with customerFromLine := 2, pc := .call .signalLine }
    else { c with customerFromLine := 0, pc := .call (.onBreak .getTHEEND) }
  | .signalBribe | .signalLine => c.goTo (.call .setSignaled)
  | .setSignaled => c.goTo (.call .acquireClerk)
  | .onBreak .releaseEnd => c.goTo .exited
  | .onBreak p =>
    match p.next CLERKCOUNT c.myLine answer r with
    | some q => c.goTo (.call (.onBreak q))
    | none => c.goTo (.call .release)
  | .release => c.goTo (.senator .acquire)
  | .acquireClerk => c.goTo (.call .releaseLine)
  | .releaseLine => c.goTo (.serve .wait)

/-- What follows the customer's number. -/
def received (k : Kind) : Serve :=
  match k with
  | .application => .signal
  | .picture => .resetPicture
  | .passport => .getApplicationCompletion
  | .cashier => .getPassportCompletion

/-- Where the service goes on; `none` when the loop starts again. -/
def nextServe (k : Kind) (answer : Int) : Serve → Option Serve
  | .wait => some .getSSN
  | .getSSN => some (received k)
  | .resetPicture => some .getPicture
  | .getPicture => if answer = 0 then some .signalShow else some .signal
  | .signalShow => some .waitAnswer
  | .waitAnswer => some .getAnswer
  | .getAnswer => some .getPicture
  | .getApplicationCompletion =>
    if answer = 1 then some .getPictureCompletion else some (.setPunishment 1)
  | .getPictureCompletion => if answer = 1 then some (.setPunishment 0) else some (.setPunishment 1)
  | .setPunishment v => if v = 1 then some .signal else some .setPassportCompletion
  | .setPassportCompletion => some .signal
  -- before certification the customer is not signalled
  | .getPassportCompletion => if answer = 0 then some (.setRejection 1) else some (.setRejection 0)
  | .setRejection v => if v = 1 then some .release else some .signalCertified
  | .signalCertified => some .waitMoney
  | .waitMoney => some .setDone
  | .setDone => some .signal
  | .signal => if k = .picture then some .setPictureCompletion else some .release
  | .setPictureCompletion => some .release
  | .release => if k = .application then some .setApplicationCompletion else none
  | .setApplicationCompletion => none

/-- The customer's number is read, and the bribe is taken. -/
def receive (c : Clerk) (SSN : Int) : Clerk :=
  { c with
    customerSSN := SSN
    money := if c.customerFromLine = 1 then c.money + 500 else c.money }

def next (CLERKCOUNT : Nat) (c : Clerk) (answer : Int) (r : Nat) : Clerk :=
  match c.pc with
  | .draw p =>
    match p.next with
    | some q => { c with myLine := if p = .get then answer else c.myLine, pc := .draw q }
    | none => c.goTo (.senator .acquire)
  | .senator .acquire => c.goTo (.senator .getWaitOutSide)
  | .senator .getWaitOutSide => c.goTo (.senator (.getSafe answer))
  | .senator (.getSafe temp1) => c.goTo (.senator (.release (temp1 ≠ 0 ∧ answer = 0)))
  | .senator (.release waiting) =>
    if waiting then c.goTo (.senator .acquire) else c.goTo (.call .acquire)
  | .call p => c.nextCall CLERKCOUNT answer r p
  | .serve p =>
    match nextServe c.kind answer p with
    | some q => { (if p = .getSSN then c.receive answer else c) with pc := .serve q }
    | none => c.goTo (.senator .acquire)
  | .exited => c

end Clerk

/-! ### The manager -/

/-- `managerSenatorCheck`: the four values are read, then the flags are set. -/
inductive SenatorDuty where
  | acquire
  | getSenatorLine
  | getSenatorsInside (waiting : Bool)
  | getCustomersInside (waiting inside : Bool)
  | getCustomersOutside (waiting inside customers : Bool)
  | setWaitOutSide (customers : Bool)
  | releaseToBroadcast
  | setSafe
  | broadcastSenators
  | getSafe
  | unsetSafe
  | unsetWaitOutSide
  | broadcastOutside
  | release
deriving DecidableEq

/-- `managerBroacastLine`, for one kind of clerks. -/
inductive LineDuty where
  | acquire
  | line (i : Nat)
  | bribeLine (i : Nat)
  | release
deriving DecidableEq

/-- `managerCheckandWakeupCLERK`, for one kind of clerks. -/
inductive WakeDuty where
  | acquire
  | getState (i : Nat) (asleep wake : Bool)
  | getCount (i : Nat) (asleep wake : Bool)
  | signal
  | release
deriving DecidableEq

/-- `checkEndOfDay`. -/
inductive EndDuty where
  | acquire
  | getSTARTPASSPORT
  | getSTOPPASS
  | getCheckedOut
  | setTHEEND
  | releaseEnd
  | release
deriving DecidableEq

/-- `managerBroadcastBreakLine`, for one kind of clerks. -/
inductive BreakDuty where
  | acquire
  | broadcast
  | release
deriving DecidableEq

inductive ManagerPC where
  | senators (p : SenatorDuty)
  | lines (k : Kind) (p : LineDuty)
  | wakeUp (k : Kind) (p : WakeDuty)
  | endOfDay (p : EndDuty)
  | wakeAll (k : Kind) (p : BreakDuty)
  | exited
deriving DecidableEq

namespace ManagerPC

def request : ManagerPC → Request
  | .senators p =>
    match p with
    | .acquire => .Acquire .managerLock
    | .getSenatorLine => .Get .senatorLineCount 0
    | .getSenatorsInside _ => .Get .senatorPresentCount 0
    | .getCustomersInside _ _ => .Get .customersPresentCount 0
    | .getCustomersOutside _ _ _ => .Get .passportOfficeOutsideLineCount 0
    | .setWaitOutSide _ => .Set .senatorPresentWaitOutSide 0 1
    | .releaseToBroadcast | .release => .Release .managerLock
    | .setSafe => .Set .senatorSafeToEnter 0 1
    | .broadcastSenators => .Broadcast .senatorLineCV .managerLock
    | .getSafe => .Get .senatorSafeToEnter 0
    | .unsetSafe => .Set .senatorSafeToEnter 0 0
    | .unsetWaitOutSide => .Set .senatorPresentWaitOutSide 0 0
    | .broadcastOutside => .Broadcast .outsideLineCV .managerLock
  | .lines k p =>
    match p with
    | .acquire => .Acquire (.lineLock k)
    | .line i => .Broadcast (.lineCV k i) (.lineLock k)
    | .bribeLine i => .Broadcast (.bribeLineCV k i) (.lineLock k)
    | .release => .Release (.lineLock k)
  | .wakeUp k p =>
    match p with
    | .acquire => .Acquire (.lineLock k)
    | .getState i _ _ => .Get (.clerkState k) i
    | .getCount i _ _ => .Get (.lineCount k) i
    | .signal => .Signal (.breakCV k) (.lineLock k)
    | .release => .Release (.lineLock k)
  | .endOfDay p =>
    match p with
    | .acquire => .Acquire .managerLock
    | .getSTARTPASSPORT => .Get .STARTPASSPORT 0
    | .getSTOPPASS => .Get .STOPPASS 0
    | .getCheckedOut => .Get .checkedOutCount 0
    | .setTHEEND => .Set .THEEND 0 1
    | .releaseEnd | .release => .Release .managerLock
  | .wakeAll k p =>
    match p with
    | .acquire => .Acquire (.lineLock k)
    | .broadcast => .Broadcast (.breakCV k) (.lineLock k)
    | .release => .Release (.lineLock k)
  | .exited => .Exit

/-- Where `managerSenatorCheck` goes on; `none` when it returns, or broadcasts to the lines. -/
def nextSenators (answer : Int) : SenatorDuty → Option SenatorDuty
  | .acquire => some .getSenatorLine
  | .getSenatorLine => some (.getSenatorsInside (answer > 0))
  | .getSenatorsInside waiting => some (.getCustomersInside waiting (answer > 0))
  | .getCustomersInside waiting inside =>
    some (.getCustomersOutside waiting inside (answer > 0))
  | .getCustomersOutside waiting inside customers =>
    if waiting then some (.setWaitOutSide customers)
    else if !inside then some .getSafe
    else some .release
  | .setWaitOutSide customers => if customers then some .releaseToBroadcast else some .setSafe
  | .setSafe => some .broadcastSenators
  | .broadcastSenators => some .release
  | .getSafe => if answer ≠ 0 then some .unsetSafe else some .release
  | .unsetSafe => some .unsetWaitOutSide
  | .unsetWaitOutSide => some .broadcastOutside
  | .broadcastOutside => some .release
  | .releaseToBroadcast | .release => none

/-- Where `checkEndOfDay` goes on; `none` when it returns, or wakes the clerks. -/
def nextEndOfDay (answer : Int) : EndDuty → Option EndDuty
  | .acquire => some .getSTARTPASSPORT
  | .getSTARTPASSPORT => if answer ≠ 0 then some .getSTOPPASS else some .getCheckedOut
  | .getSTOPPASS => if answer ≠ 0 then some .setTHEEND else some .release
  | .getCheckedOut =>
    if answer = CUSTOMERCOUNT + SENATORCOUNT then some .setTHEEND else some .release
  | .setTHEEND => some .releaseEnd
  | .releaseEnd | .release => none

def next (CLERKCOUNT : Nat) (pc : ManagerPC) (answer : Int) : ManagerPC :=
  match pc with
  | .senators p =>
    match nextSenators answer p with
    | some q => .senators q
    | none =>
      if p = .releaseToBroadcast then .lines .application .acquire
      else .wakeUp .application .acquire
  | .lines k p =>
    match p with
    | .acquire => .lines k (.line 0)
    | .line i => .lines k (.bribeLine i)
    | .bribeLine i => if i + 1 < CLERKCOUNT then .lines k (.line (i + 1)) else .lines k .release
    | .release =>
      match k.next with
      | some k' => .lines k' .acquire
      | none => .wakeUp .application .acquire
  | .wakeUp k p =>
    match p with
    | .acquire => .wakeUp k (.getState 0 false false)
    | .getState i asleep wake => .wakeUp k (.getCount i (asleep || answer = ONBREAK) wake)
    | .getCount i asleep wake =>
      if i + 1 < CLERKCOUNT then .wakeUp k (.getState (i + 1) asleep (wake || answer > 3))
      else if (wake || answer > 3) && asleep then .wakeUp k .signal
      else .wakeUp k .release
    | .signal => .wakeUp k .release
    | .release =>
      match k.next with
      | some k' => .wakeUp k' .acquire
      | none => .endOfDay .acquire
  | .endOfDay p =>
    match nextEndOfDay answer p with
    | some q => .endOfDay q
    | none => if p = .releaseEnd then .wakeAll .application .acquire else .senators .acquire
  | .wakeAll k p =>
    match p with
    | .acquire => .wakeAll k .broadcast
    | .broadcast => .wakeAll k .release
    | .release =>
      match k.next with
      | some k' => .wakeAll k' .acquire
      | none => .exited
  | .exited => .exited

end ManagerPC

end Nachos.Passport

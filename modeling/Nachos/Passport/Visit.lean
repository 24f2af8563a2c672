import Nachos.Passport.Basic

/-!
# The passport office: a visit to a clerk

`customerApplicationClerkInteraction` and its three siblings, which the customers and the
senators share. They differ in the names of the variables, which the kind stands for, and in
what is said at the counter. The function is cut at its calls of the server; a visit is at one
of the cuts, with the local variables that are still read.

Printing is left out: it uses a lock of its own, which nothing else uses.
-/

namespace Nachos.Passport

/-- From the line lock to the moment the clerk is free: `pickShortestLine`, and the wait in line.
`bribe` tells which of the clerk's two lines. -/
inductive Line where
  | acquire
  /-- `pickShortestLine`, in its loop: `tempLineCount = Get(lineCount, i)`. -/
  | getCount (i : Nat) (myLine lineSize : Int)
  | getState (i : Nat) (myLine lineSize tempLineCount : Int)
  /-- `tempState = Get(applicationClerkState, myLine)`. -/
  | getMyState (myLine : Int)
  | join (myLine : Int) (b : Bump)
  | wait (myLine : Int)
  | leave (myLine : Int) (b : Bump)
  /-- The state again, after the wait. -/
  | look (myLine : Int)
  /-- Not signalled by the clerk: the line lock is released. -/
  | release (myLine : Int)
deriving DecidableEq

/-- `Set(applicationClerkState, myLine, BUSY)` and `Release(applicationClerkLineLock)`, by a
customer that has released the line lock before. -/
inductive Unlocked where
  | setBusy
  | release
deriving DecidableEq

/-- At the counter. -/
inductive Talk where
  | setBusy
  | releaseLine
  | acquire
  | setSSN
  | signal
  | wait
  /-- The picture clerk: `while(Get(pictureClerkSharedDataPicture, myLine) == 0)`. -/
  | getPicture
  | setPicture (liked : Int)
  | signalPicture
  | waitPicture
  /-- The passport clerk: `Get(passportPunishment, SSN)`. -/
  | getPunishment
  /-- The cashier: `Get(cashierRejection, SSN)`, and the $100. -/
  | getRejection
  | signalMoney
  | waitPassport
  | release (done : Bool)
deriving DecidableEq

inductive VisitPC where
  | line (p : Line)
  | unlocked (myLine : Int) (p : Unlocked)
  | talk (myLine : Int) (p : Talk)
deriving DecidableEq

/-- A call of one of the four interactions. -/
structure Visit where
  kind : Kind
  bribe : Bool
  pc : VisitPC
deriving DecidableEq

/-- How a step of a visit ends: it goes on, it asks for the senator check, or it returns. -/
inductive Outcome where
  | at (pc : VisitPC)
  | checkSenator (myLine : Int)
  | returned (done : Bool)
deriving DecidableEq

namespace Visit

/-- The counts of the line that is chosen. -/
def countMV (k : Kind) (bribe : Bool) : MV :=
  if bribe then .bribeLineCount k else .lineCount k

/-- The condition variable of the line that is chosen. -/
def lineCV (k : Kind) (bribe : Bool) (myLine : Int) : CV :=
  if bribe then .bribeLineCV k myLine else .lineCV k myLine

/-- The server call at each cut; `SSN` is the caller's. -/
def request (v : Visit) (SSN : Int) : Request :=
  match v.pc with
  | .line p =>
    match p with
    | .acquire => .Acquire (.lineLock v.kind)
    | .getCount i _ _ => .Get (countMV v.kind v.bribe) i
    | .getState i _ _ _ => .Get (.clerkState v.kind) i
    | .getMyState myLine => .Get (.clerkState v.kind) myLine
    | .join myLine b => b.request (countMV v.kind v.bribe) myLine 1
    | .wait myLine => .Wait (lineCV v.kind v.bribe myLine) (.lineLock v.kind)
    | .leave myLine b => b.request (countMV v.kind v.bribe) myLine (-1)
    | .look myLine => .Get (.clerkState v.kind) myLine
    | .release _ => .Release (.lineLock v.kind)
  | .unlocked myLine .setBusy => .Set (.clerkState v.kind) myLine BUSY
  | .unlocked _ .release => .Release (.lineLock v.kind)
  | .talk myLine p =>
    match p with
    | .setBusy => .Set (.clerkState v.kind) myLine BUSY
    | .releaseLine => .Release (.lineLock v.kind)
    | .acquire => acquireClerkLock v.kind myLine
    | .setSSN => .Set (.sharedDataSSN v.kind) myLine SSN
    | .signal | .signalPicture | .signalMoney =>
      .Signal (.clerkCV v.kind myLine) (.clerkLock v.kind myLine)
    | .wait | .waitPicture | .waitPassport =>
      .Wait (.clerkCV v.kind myLine) (.clerkLock v.kind myLine)
    | .getPicture => .Get .sharedDataPicture myLine
    | .setPicture liked => .Set .sharedDataPicture myLine liked
    | .getPunishment => .Get .passportPunishment SSN
    | .getRejection => .Get .cashierRejection SSN
    | .release _ => .Release (.clerkLock v.kind myLine)

/-- The next turn of the loop of `pickShortestLine`, or what follows it. -/
def picked (CLERKCOUNT : Nat) (i : Nat) (myLine lineSize : Int) : Line :=
  if i < CLERKCOUNT then .getCount i myLine lineSize else .getMyState myLine

/-- Where a visit goes in the line. -/
def Line.next (CLERKCOUNT : Nat) (answer : Int) : Line → Outcome
  | .acquire => .at (.line (picked CLERKCOUNT 0 (-1) 1000))
  | .getCount i myLine lineSize => .at (.line (.getState i myLine lineSize answer))
  | .getState i myLine lineSize tempLineCount =>
    if tempLineCount < lineSize ∧ answer ≠ ONBREAK then
      .at (.line (picked CLERKCOUNT (i + 1) i tempLineCount))
    else .at (.line (picked CLERKCOUNT (i + 1) myLine lineSize))
  | .getMyState myLine =>
    if answer ≠ AVAILABLE then .at (.line (.join myLine .get)) else .at (.talk myLine .setBusy)
  | .join myLine b => .at (.line (b.next (.join myLine) (.wait myLine) answer))
  | .wait myLine => .at (.line (.leave myLine .get))
  | .leave myLine b => .at (.line (b.next (.leave myLine) (.look myLine) answer))
  | .look myLine =>
    if answer ≠ SIGNALEDCUSTOMER then .at (.line (.release myLine)) else .at (.talk myLine .setBusy)
  | .release myLine => .checkSenator myLine

/-- Where a visit goes at the counter. -/
def Talk.next (k : Kind) (myLine answer : Int) (r : Nat) : Talk → Outcome
  | .setBusy => .at (.talk myLine .releaseLine)
  | .releaseLine => .at (.talk myLine .acquire)
  | .acquire => .at (.talk myLine .setSSN)
  | .setSSN => .at (.talk myLine .signal)
  | .signal => .at (.talk myLine .wait)
  | .wait =>
    match k with
    | .application => .at (.talk myLine (.release true))
    | .picture => .at (.talk myLine .getPicture)
    | .passport => .at (.talk myLine .getPunishment)
    | .cashier => .at (.talk myLine .getRejection)
  | .getPicture =>
    if answer = 0 then .at (.talk myLine (.setPicture (if r % 10 > 7 then 0 else 1)))
    else .at (.talk myLine (.release true))
  | .setPicture _ => .at (.talk myLine .signalPicture)
  | .signalPicture => .at (.talk myLine .waitPicture)
  | .waitPicture => .at (.talk myLine .getPicture)
  | .getPunishment => .at (.talk myLine (.release (answer ≠ 1)))
  | .getRejection =>
    if answer = 1 then .at (.talk myLine (.release false)) else .at (.talk myLine .signalMoney)
  | .signalMoney => .at (.talk myLine .waitPassport)
  | .waitPassport => .at (.talk myLine (.release true))
  | .release done => .returned done

/-- Where a visit goes on with the answer to its request. -/
def next (CLERKCOUNT : Nat) (v : Visit) (answer : Int) (r : Nat) : Outcome :=
  match v.pc with
  | .line p => Line.next CLERKCOUNT answer p
  | .unlocked myLine .setBusy => .at (.unlocked myLine .release)
  | .unlocked myLine .release => .at (.talk myLine .acquire)
  | .talk myLine p => Talk.next v.kind myLine answer r p

/-- What is deducted at a step as a bribe: in the bribe line, when the clerk has signalled. -/
def bribePaid (v : Visit) (answer : Int) : Int :=
  match v.pc with
  | .line (.look _) => if v.bribe ∧ answer = SIGNALEDCUSTOMER then 500 else 0
  | _ => 0

/-- What is deducted at a step for the passport. -/
def feePaid (v : Visit) (answer : Int) : Int :=
  match v.pc with
  | .talk _ .getRejection => if answer = 1 then 0 else 100
  | _ => 0

end Visit

/-- A call of the interaction with a kind of clerks, before its first call of the server. -/
def interaction (k : Kind) (bribe : Bool) : Visit := ⟨k, bribe, .line .acquire⟩

def customerApplicationClerkInteraction : Bool → Visit := interaction .application
def customerPictureClerkInteraction : Bool → Visit := interaction .picture
def customerPassportClerkInteraction : Bool → Visit := interaction .passport
def customerCashierInteraction : Bool → Visit := interaction .cashier

end Nachos.Passport

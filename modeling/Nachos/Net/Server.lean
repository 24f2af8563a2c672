import Nachos.Net.Basic

/-!
# The server

`Server()` of `network/nettest.cc` and the functions it calls. A `serverDo...` function
works on the tables of this server; the `server...` function around it decides whether the
request is for this server or has to be sent to the others.

The ten requests with an id share one forwarding code (`serveById`, `onRequest`, `onReply`),
and so do the three creates (`serveCreate`, `onCreateRequest`, `onCreateReply`): the source
repeats it for each kind with other names, and each member below is that code at its own
values.
-/

namespace Nachos.Net

/-! ## Pending requests -/

/-- The search of the `findPending...Request` functions. -/
def findPendingWhere (s : Server) (c : Sender) (requestID : Nat) (key : Request → Bool) :
    Option Nat :=
  s.pendingRequests.findIdx? fun p =>
    decide (p.requestID = requestID) && p.c.same c && key p.r

def findPendingCreateLockRequest (s : Server) (c : Sender) (requestID : Nat) (name : String) :=
  findPendingWhere s c requestID fun | .createLock n => decide (n = name) | _ => false

def findPendingAcquireLockRequest (s : Server) (c : Sender) (requestID lockID : Nat) :=
  findPendingWhere s c requestID fun | .acquire l => decide (l = lockID) | _ => false

def findPendingReleaseLockRequest (s : Server) (c : Sender) (requestID lockID : Nat) :=
  findPendingWhere s c requestID fun | .release l => decide (l = lockID) | _ => false

def findPendingDestroyLockRequest (s : Server) (c : Sender) (requestID lockID : Nat) :=
  findPendingWhere s c requestID fun | .destroyLock l => decide (l = lockID) | _ => false

def findPendingCreateCVRequest (s : Server) (c : Sender) (requestID : Nat) (name : String) :=
  findPendingWhere s c requestID fun | .createCondition n => decide (n = name) | _ => false

def findPendingWaitRequest (s : Server) (c : Sender) (requestID CVID : Nat) :=
  findPendingWhere s c requestID fun | .wait v _ => decide (v = CVID) | _ => false

def findPendingSignalRequest (s : Server) (c : Sender) (requestID CVID : Nat) :=
  findPendingWhere s c requestID fun | .signal v _ => decide (v = CVID) | _ => false

def findPendingBroadcastRequest (s : Server) (c : Sender) (requestID CVID : Nat) :=
  findPendingWhere s c requestID fun | .broadcast v _ => decide (v = CVID) | _ => false

def findPendingDestroyCVRequest (s : Server) (c : Sender) (requestID CVID : Nat) :=
  findPendingWhere s c requestID fun | .destroyCondition v => decide (v = CVID) | _ => false

def findPendingCreateMVRequest (s : Server) (c : Sender) (requestID : Nat) (name : String) :=
  findPendingWhere s c requestID fun | .createMV n _ => decide (n = name) | _ => false

def findPendingDestroyMVRequest (s : Server) (c : Sender) (requestID MVID : Nat) :=
  findPendingWhere s c requestID fun | .destroyMV v => decide (v = MVID) | _ => false

def findPendingSetMVRequest (s : Server) (c : Sender) (requestID MVID : Nat) :=
  findPendingWhere s c requestID fun | .set v _ _ => decide (v = MVID) | _ => false

def findPendingGetMVRequest (s : Server) (c : Sender) (requestID MVID : Nat) :=
  findPendingWhere s c requestID fun | .get v _ => decide (v = MVID) | _ => false

/-- The `findPending...Request` function of the kind of the request. -/
def findPending (s : Server) (c : Sender) (requestID : Nat) : Request → Option Nat
  | .createLock name => findPendingCreateLockRequest s c requestID name
  | .acquire lockID => findPendingAcquireLockRequest s c requestID lockID
  | .release lockID => findPendingReleaseLockRequest s c requestID lockID
  | .destroyLock lockID => findPendingDestroyLockRequest s c requestID lockID
  | .createCondition name => findPendingCreateCVRequest s c requestID name
  | .wait CVID _ => findPendingWaitRequest s c requestID CVID
  | .signal CVID _ => findPendingSignalRequest s c requestID CVID
  | .broadcast CVID _ => findPendingBroadcastRequest s c requestID CVID
  | .destroyCondition CVID => findPendingDestroyCVRequest s c requestID CVID
  | .createMV name _ => findPendingCreateMVRequest s c requestID name
  | .destroyMV MVID => findPendingDestroyMVRequest s c requestID MVID
  | .set MVID _ _ => findPendingSetMVRequest s c requestID MVID
  | .get MVID _ => findPendingGetMVRequest s c requestID MVID

/-- The entry is a create of the same kind and name. -/
def Request.sameCreate : Request → Request → Bool
  | .createLock name, .createLock n => decide (n = name)
  | .createCondition name, .createCondition n => decide (n = name)
  | .createMV name _, .createMV n _ => decide (n = name)
  | _, _ => false

/-- The `findPendingCreate...RequestNamed` functions `findPendingCreateLockRequestNamed`,
`findPendingCreateCVRequestNamed` and `findPendingCreateMVRequestNamed`: the first pending
create of the kind and name of the request. -/
def findPendingNamed (s : Server) (r : Request) : Option Nat :=
  s.pendingRequests.findIdx? fun p => r.sameCreate p.r

/-- `deletePendingRequest`. -/
def deletePendingRequest (index : Nat) : Act := fun s =>
  ({ s with pendingRequests := s.pendingRequests.eraseIdx index }, [])

/-- `new PendingRequest` and `sendPendingRequest`; `alone` is what is done when no other
server is awake. The mails are what `PostOffice::Send` is handed; `Network.handle` has its
`ASSERT`s. -/
def forward (c : Sender) (r : Request) (alone : Act) : Act := fun s =>
  let requestID := s.pendingRequestCount
  let s := { s with pendingRequestCount := requestID + 1 }
  if s.others = [] then alone s
  else
    ({ s with pendingRequests := s.pendingRequests ++
        [{ c := c, r := r, sentCount := s.others.length, requestID := requestID }] },
      s.others.map fun dst => .mail dst (.request requestID c r))

/-- The computation of the `checkIf...IsMineAndGetMyIndex` functions. -/
def checkIfMineAndGetMyIndex (size : Nat) (s : Server) (id : Nat) : Option Nat :=
  let index := id % size
  let machineID := (id - index) / size
  if machineID = s.netAddr then some index else none

def checkIfLockIsMineAndGetMyIndex (s : Server) (lockID : Nat) : Option Nat :=
  checkIfMineAndGetMyIndex lockTableSize s lockID

def checkIfCVIsMineAndGetMyIndex (s : Server) (CVID : Nat) : Option Nat :=
  checkIfMineAndGetMyIndex CVTableSize s CVID

def checkIfMVIsMineAndGetMyIndex (s : Server) (MVID : Nat) : Option Nat :=
  checkIfMineAndGetMyIndex MVTableSize s MVID

/-- The `checkIf...IsMineAndGetMyIndex` of the kind of the request. -/
def Request.myIndex (s : Server) : Request → Option Nat
  | .createLock _ | .createCondition _ | .createMV _ _ => none
  | .acquire lockID | .release lockID | .destroyLock lockID =>
    checkIfLockIsMineAndGetMyIndex s lockID
  | .wait CVID _ | .signal CVID _ | .broadcast CVID _ | .destroyCondition CVID =>
    checkIfCVIsMineAndGetMyIndex s CVID
  | .destroyMV MVID | .set MVID _ _ | .get MVID _ => checkIfMVIsMineAndGetMyIndex s MVID

/-- The ten `server...` functions of requests with an id: run it here, at the table index,
when it is for this server or when no other server is awake. -/
def serveById (c : Sender) (r : Request) (serverDo : Option Nat → Act) : Act := fun s =>
  match r.myIndex s with
  | some i => (Act.andThen (.emit (.exec (some i) c r)) (serverDo (some i))) s
  | none => forward c r (.andThen (.emit (.exec none c r)) (serverDo none)) s

/-! ## Locks -/

/-- `findLockNamed`. -/
def findLockNamed (s : Server) (name : String) : Option Nat :=
  s.serverLocks.findNamed ServerLock.name name

/-- `createLockNamed`: the index, or `none` for `-1`. -/
def createLockNamed (name : String) (s : Server) : Server × Option Nat × List Out :=
  match findLockNamed s name with
  | none =>
    let (t, index, asserted) := s.serverLocks.insert { name := name }
    ({ s with serverLocks := t }, index, if asserted then [.crash] else [])
  | some index =>
    match s.serverLocks.get? (some index) with
    | some l =>
      (s.putLock (some index) { l with createLockCount := l.createLockCount + 1 }, some index, [])
    | none => (s, some index, [])

/-- `serverDoCreateLock`: the id is computed from the index also when that is `-1`. -/
def serverDoCreateLock (name : String) (c : Sender) : Act := fun s =>
  let (s, index, out) := createLockNamed name s
  let lockID : Int := s.netAddr * lockTableSize + (index.map Int.ofNat).getD (-1)
  (s, out ++ (sendAnswer c ⟨decide (lockID ≠ -1), some lockID⟩ s).2)

/-- `checkLockAndDestroy`. -/
def checkLockAndDestroy (lockID : Option Nat) : Act := fun s =>
  match s.serverLocks.get? lockID with
  | none => (s, [])
  | some l =>
    if l.isToBeDestroyed && decide (l.state = .FREE) && decide (l.createLockCount = 0) then
      ({ s with serverLocks := s.serverLocks.remove lockID }, [])
    else (s, [])

/-- `serverDoAcquireLock`. -/
def serverDoAcquireLock (lockID : Option Nat) (c : Sender) : Act := fun s =>
  match s.serverLocks.get? lockID with
  | none => sendAnswer c { status := false } s
  | some l =>
    if l.isOwner c then sendAnswer c { status := true } s
    else
      match l.state with
      | .BUSY =>
        Act.emit (.enter (.lock lockID) c) (s.putLock lockID { l with q := l.q ++ [c] })
      | .FREE =>
        sendAnswer c { status := true } (s.putLock lockID { l with state := .BUSY, owner := c })

/-- `serverAcquireLock`. -/
def serverAcquireLock (lockID : Nat) (c : Sender) : Act :=
  serveById c (.acquire lockID) (serverDoAcquireLock · c)

/-- `serverDoReleaseLock`. -/
def serverDoReleaseLock (lockID : Option Nat) (c : Sender) : Act := fun s =>
  match s.serverLocks.get? lockID with
  | none => (s, [])
  | some l =>
    if l.isOwner c then
      match l.q with
      | r :: rest =>
        Act.andThen (.emit (.leave (.lock lockID) r)) (sendAnswer r { status := true })
          (s.putLock lockID { l with owner := r, q := rest })
      | [] =>
        checkLockAndDestroy lockID (s.putLock lockID { l with state := .FREE })
    else (s, [])

/-- `serverReleaseLock`. -/
def serverReleaseLock (lockID : Nat) (c : Sender) : Act :=
  serveById c (.release lockID) (serverDoReleaseLock · c)

/-- `serverDoDestroyLock`. -/
def serverDoDestroyLock (lockID : Option Nat) : Act := fun s =>
  match s.serverLocks.get? lockID with
  | none => (s, [])
  | some l =>
    checkLockAndDestroy lockID (s.putLock lockID
      { l with isToBeDestroyed := true, createLockCount := l.createLockCount - 1 })

/-- `serverDestroyLock`. -/
def serverDestroyLock (lockID : Nat) (c : Sender) : Act :=
  serveById c (.destroyLock lockID) serverDoDestroyLock

/-! ## Condition variables -/

/-- `findCVNamed`. -/
def findCVNamed (s : Server) (name : String) : Option Nat :=
  s.serverCVs.findNamed ServerCV.name name

/-- `createCVNamed`. -/
def createCVNamed (name : String) (s : Server) : Server × Option Nat × List Out :=
  match findCVNamed s name with
  | none =>
    let (t, index, asserted) := s.serverCVs.insert { name := name }
    ({ s with serverCVs := t }, index, if asserted then [.crash] else [])
  | some index =>
    match s.serverCVs.get? (some index) with
    | some cv =>
      (s.putCV (some index) { cv with createCVCount := cv.createCVCount + 1 }, some index, [])
    | none => (s, some index, [])

/-- The reply of `serverDoCreateCV` and `serverDoCreateMV`. -/
def createAnswer (size : Nat) (s : Server) : Option Nat → Answer
  | some index => ⟨true, some (s.netAddr * size + index : Nat)⟩
  | none => ⟨false, some (-1)⟩

/-- `serverDoCreateCV`. -/
def serverDoCreateCV (name : String) (c : Sender) : Act := fun s =>
  let (s, index, out) := createCVNamed name s
  (s, out ++ (sendAnswer c (createAnswer CVTableSize s index) s).2)

/-- `checkCVAndDestroy`. -/
def checkCVAndDestroy (CVID : Option Nat) : Act := fun s =>
  match s.serverCVs.get? CVID with
  | none => (s, [])
  | some cv =>
    if cv.q.isEmpty && decide (cv.createCVCount = 0) then
      ({ s with serverCVs := s.serverCVs.remove CVID }, [])
    else (s, [])

/-- `serverDoDestroyCV`. -/
def serverDoDestroyCV (CVID : Option Nat) : Act := fun s =>
  match s.serverCVs.get? CVID with
  | none => (s, [])
  | some cv =>
    checkCVAndDestroy CVID (s.putCV CVID { cv with createCVCount := cv.createCVCount - 1 })

/-- `serverDestroyCV`. -/
def serverDestroyCV (CVID : Nat) (c : Sender) : Act :=
  serveById c (.destroyCondition CVID) serverDoDestroyCV

/-- `serverDoWait`: the client is queued and its lock released. -/
def serverDoWait (CVID : Option Nat) (lockID : Nat) (c : Sender) : Act := fun s =>
  match s.serverCVs.get? CVID with
  | none => sendAnswer c { status := false } s
  | some cv =>
    let waitingLock := if cv.waitingLock = none then some lockID else cv.waitingLock
    if waitingLock ≠ some lockID then sendAnswer c { status := false } s
    else
      Act.andThen (.emit (.enter (.CV CVID) c))
        (.andThen (.emit (.nested c (.release lockID))) (serverReleaseLock lockID c))
        (s.putCV CVID { cv with waitingLock := waitingLock, q := cv.q ++ [c] })

/-- `serverWait`. -/
def serverWait (CVID lockID : Nat) (c : Sender) : Act :=
  serveById c (.wait CVID lockID) (serverDoWait · lockID c)

/-- Take the first client out of the queue and acquire the lock for it: the common part of
`serverDoSignal` and of the loop of `serverDoBroadcast`. -/
def wakeUp (CVID : Option Nat) (cv : ServerCV) (r : Sender) (rest : List Sender) (lockID : Nat) :
    Act := fun s =>
  Act.andThen (.emit (.leave (.CV CVID) r))
    (.andThen (.emit (.nested r (.acquire lockID))) (serverAcquireLock lockID r))
    (s.putCV CVID
      { cv with q := rest, waitingLock := if rest = [] then none else cv.waitingLock })

/-- `serverDoSignal`. -/
def serverDoSignal (CVID : Option Nat) (lockID : Nat) (c : Sender) : Act := fun s =>
  match s.serverCVs.get? CVID with
  | none => sendAnswer c { status := false } s
  | some cv =>
    match cv.waitingLock with
    | none => sendAnswer c { status := true } s
    | some waitingLock =>
      if waitingLock ≠ lockID then sendAnswer c { status := false } s
      else
        match cv.q with
        | [] => (s, [.crash])
        | r :: rest =>
          Act.andThen (wakeUp CVID cv r rest lockID) (sendAnswer c { status := true }) s

/-- `serverSignal`. -/
def serverSignal (CVID lockID : Nat) (c : Sender) : Act :=
  serveById c (.signal CVID lockID) (serverDoSignal · lockID c)

/-- The loop of `serverDoBroadcast`, over the queue of the condition variable. The acquires
in between touch no condition variable. -/
def broadcastLoop (CVID : Option Nat) (cv : ServerCV) (lockID : Nat) : List Sender → Act
  | [] => .skip
  | r :: rest => .andThen (wakeUp CVID cv r rest lockID) (broadcastLoop CVID cv lockID rest)

/-- `serverDoBroadcast`. -/
def serverDoBroadcast (CVID : Option Nat) (lockID : Nat) (c : Sender) : Act := fun s =>
  match s.serverCVs.get? CVID with
  | none => sendAnswer c { status := false } s
  | some cv =>
    Act.andThen (broadcastLoop CVID cv lockID cv.q) (sendAnswer c { status := true }) s

/-- `serverBroadcast`. -/
def serverBroadcast (CVID lockID : Nat) (c : Sender) : Act :=
  serveById c (.broadcast CVID lockID) (serverDoBroadcast · lockID c)

/-! ## Monitor variables -/

/-- `findMVNamed`. -/
def findMVNamed (s : Server) (name : String) : Option Nat :=
  s.serverMVs.findNamed ServerMV.name name

/-- `createMV`. -/
def createMV (name : String) (size : Nat) (s : Server) : Server × Option Nat × List Out :=
  match findMVNamed s name with
  | none =>
    let (t, index, asserted) := s.serverMVs.insert
      { name := name, size := size, v := List.replicate size 0 }
    ({ s with serverMVs := t }, index, if asserted then [.crash] else [])
  | some index =>
    match s.serverMVs.get? (some index) with
    | some m =>
      if m.size ≠ size then (s, none, [])
      else
        (s.putMV (some index) { m with createMVCount := m.createMVCount + 1 }, some index, [])
    | none => (s, some index, [])

/-- `serverDoCreateMV`. -/
def serverDoCreateMV (name : String) (size : Nat) (c : Sender) : Act := fun s =>
  let (s, index, out) := createMV name size s
  (s, out ++ (sendAnswer c (createAnswer MVTableSize s index) s).2)

/-- `serverDoDestroyMV`. -/
def serverDoDestroyMV (MVID : Option Nat) : Act := fun s =>
  match s.serverMVs.get? MVID with
  | none => (s, [])
  | some m =>
    let m := { m with createMVCount := m.createMVCount - 1 }
    if m.createMVCount = 0 then ({ s with serverMVs := s.serverMVs.remove MVID }, [])
    else (s.putMV MVID m, [])

/-- `serverDestroyMV`. -/
def serverDestroyMV (MVID : Nat) (c : Sender) : Act :=
  serveById c (.destroyMV MVID) serverDoDestroyMV

/-- `serverDoSet`. -/
def serverDoSet (MVID : Option Nat) (index : Nat) (value : Int) (c : Sender) : Act := fun s =>
  match s.serverMVs.get? MVID with
  | none => sendAnswer c { status := false } s
  | some m =>
    if index < m.size then
      sendAnswer c { status := true } (s.putMV MVID { m with v := m.v.set index value })
    else sendAnswer c { status := false } s

/-- `serverSet`. -/
def serverSet (MVID index : Nat) (value : Int) (c : Sender) : Act :=
  serveById c (.set MVID index value) (serverDoSet · index value c)

/-- `serverDoGet`. -/
def serverDoGet (MVID : Option Nat) (index : Nat) (c : Sender) : Act := fun s =>
  match s.serverMVs.get? MVID with
  | none => sendAnswer c ⟨false, some 0⟩ s
  | some m =>
    if index < m.size then sendAnswer c ⟨true, some (m.v.getD index 0)⟩ s
    else sendAnswer c ⟨false, some 0⟩ s

/-- `serverGet`. -/
def serverGet (MVID index : Nat) (c : Sender) : Act :=
  serveById c (.get MVID index) (serverDoGet · index c)

/-! ## Creates -/

/-- The server has a live entry with the name: `find...Named(name) != -1`. -/
def hasNamed (s : Server) : Request → Bool
  | .createLock name => (findLockNamed s name).isSome
  | .createCondition name => (findCVNamed s name).isSome
  | .createMV name _ => (findMVNamed s name).isSome
  | _ => false

/-- The `serverDoCreate...` function of the kind of the request. -/
def serverDoCreate (r : Request) (c : Sender) : Act :=
  .andThen (.emit (.exec none c r))
    (match r with
    | .createLock name => serverDoCreateLock name c
    | .createCondition name => serverDoCreateCV name c
    | .createMV name size => serverDoCreateMV name size c
    | _ => .skip)

/-- The three `serverCreate...` functions. -/
def serveCreate (r : Request) (c : Sender) : Act := fun s =>
  if hasNamed s r then serverDoCreate r c s else forward c r (serverDoCreate r c) s

/-- `serverCreateLock`. -/
def serverCreateLock (name : String) (c : Sender) : Act := serveCreate (.createLock name) c

/-- `serverCreateCV`. -/
def serverCreateCV (name : String) (c : Sender) : Act := serveCreate (.createCondition name) c

/-- `serverCreateMV`. -/
def serverCreateMV (name : String) (size : Nat) (c : Sender) : Act :=
  serveCreate (.createMV name size) c

/-! ## Messages -/

/-- The `server...` function of the kind of the request. -/
def serve (c : Sender) : Request → Act
  | .createLock name => serverCreateLock name c
  | .acquire lockID => serverAcquireLock lockID c
  | .release lockID => serverReleaseLock lockID c
  | .destroyLock lockID => serverDestroyLock lockID c
  | .createCondition name => serverCreateCV name c
  | .wait CVID lockID => serverWait CVID lockID c
  | .signal CVID lockID => serverSignal CVID lockID c
  | .broadcast CVID lockID => serverBroadcast CVID lockID c
  | .destroyCondition CVID => serverDestroyCV CVID c
  | .createMV name size => serverCreateMV name size c
  | .destroyMV MVID => serverDestroyMV MVID c
  | .set MVID index value => serverSet MVID index value c
  | .get MVID index => serverGet MVID index c

/-- The `serverDo...` function of a request with an id, at a table index. -/
def serverDo (r : Request) (index : Option Nat) (c : Sender) : Act :=
  match r with
  | .acquire _ => serverDoAcquireLock index c
  | .release _ => serverDoReleaseLock index c
  | .destroyLock _ => serverDoDestroyLock index
  | .wait _ lockID => serverDoWait index lockID c
  | .signal _ lockID => serverDoSignal index lockID c
  | .broadcast _ lockID => serverDoBroadcast index lockID c
  | .destroyCondition _ => serverDoDestroyCV index
  | .destroyMV _ => serverDoDestroyMV index
  | .set _ i value => serverDoSet index i value c
  | .get _ i => serverDoGet index i c
  | .createLock _ | .createCondition _ | .createMV _ _ => .skip

/-- Run the `serverDo...` function, on record. -/
def execute (r : Request) (index : Option Nat) (c : Sender) : Act :=
  .andThen (.emit (.exec index c r)) (serverDo r index c)

/-- A YES or NO to the server that asked, as it is handed to `PostOffice::Send`. -/
def sendReply (src requestID : Nat) (c : Sender) (r : Request) (response : Bool) : Act :=
  .emit (.mail src (.reply requestID c r response))

/-- A request with an id from another server. -/
def onRequest (src requestID : Nat) (c : Sender) (r : Request) : Act := fun s =>
  match r.myIndex s with
  | some i => Act.andThen (sendReply src requestID c r true) (execute r (some i) c) s
  | none => sendReply src requestID c r false s

/-- One more NO for an entry. -/
def countNo (index : Nat) (p : PendingRequest) (s : Server) : Server :=
  { s with pendingRequests := s.pendingRequests.set index { p with noCount := p.noCount + 1 } }

/-- A reply to a request with an id. When all servers said NO, the request is run here, with
its id for a table index. -/
def onReply (requestID id : Nat) (c : Sender) (r : Request) (response : Bool) : Act := fun s =>
  match findPending s c requestID r with
  | none => (s, [])
  | some index =>
    match s.pendingRequests[index]? with
    | none => (s, [])
    | some p =>
      if response then deletePendingRequest index s
      else if (p.noCount + 1 : Int) = p.sentCount then
        Act.andThen (execute r (some id) p.c) (deletePendingRequest index) (countNo index p s)
      else (countNo index p s, [])

/-- A create request of another server. -/
def onCreateRequest (src requestID : Nat) (c : Sender) (r : Request) : Act := fun s =>
  if hasNamed s r then Act.andThen (sendReply src requestID c r true) (serverDoCreate r c) s
  else if (findPendingNamed s r).isSome then
    if s.netAddr < src then
      Act.andThen (sendReply src requestID c r true)
        (fun s => ({ s with
            pendingRequests := s.pendingRequests ++
              [{ c := c, r := r, requestID := s.pendingRequestCount }]
            pendingRequestCount := s.pendingRequestCount + 1 }, [])) s
    else sendReply src requestID c r false s
  else sendReply src requestID c r false s

/-- Drop the pending creates of the same kind and name: the loop after a YES. -/
def dropNamed (r : Request) : Act := fun s =>
  ({ s with pendingRequests := s.pendingRequests.filter fun p => !r.sameCreate p.r }, [])

/-- Run the given pending creates in order. -/
def createAll : List PendingRequest → Act
  | [] => .skip
  | p :: rest => .andThen (serverDoCreate p.r p.c) (createAll rest)

/-- Run the pending creates of the same kind and name and drop them: the loop after the
last NO. Running a create touches no pending request. -/
def createNamed (r : Request) : Act := fun s =>
  Act.andThen (createAll (s.pendingRequests.filter fun p => r.sameCreate p.r)) (dropNamed r) s

/-- A reply to a create request. -/
def onCreateReply (requestID : Nat) (c : Sender) (r : Request) (response : Bool) : Act := fun s =>
  match findPending s c requestID r with
  | none => (s, [])
  | some index =>
    match s.pendingRequests[index]? with
    | none => (s, [])
    | some p =>
      if response then Act.andThen (deletePendingRequest index) (dropNamed r) s
      else if (p.noCount + 1 : Int) = p.sentCount then
        Act.andThen (serverDoCreate p.r p.c)
          (.andThen (deletePendingRequest index) (createNamed r)) (countNo index p s)
      else (countNo index p s, [])

/-- The name and the response that `ss >> name; ss >> response` read from a reply. After an
empty name the digit of the response is taken for the name, and no response is left. -/
def readReply (name : String) (response : Bool) : String × Bool :=
  if name = "" then (if response then "1" else "0", false) else (name, response)

/-- The body of the loop of `Server()`, for a mail from the machine `src`. -/
def receive (src : Nat) : Body → Act
  | .client c r => serve c r.read
  | .request requestID c r =>
    match r.id with
    | some _ => onRequest src requestID c r
    | none => onCreateRequest src requestID c r
  | .reply requestID c r response =>
    match r with
    | .createLock name =>
      let (name, response) := readReply name response
      onCreateReply requestID c (.createLock name) response
    | .createCondition name =>
      let (name, response) := readReply name response
      onCreateReply requestID c (.createCondition name) response
    | .createMV name size =>
      let (name, response) := readReply name response
      onCreateReply requestID c (.createMV name size) response
    | r =>
      match r.id with
      | some id => onReply requestID id c r response
      | none => .skip
  | .answer _ _ => .skip

end Nachos.Net

import Nachos.BitMap
import Nachos.Lib.Stream

/-!
# The network servers: data

The tables of one server of `network/nettest.cc`, its pending requests, and the messages
between clients and servers. Five servers have the machine ids 0 to 4; clients run on
machines with higher ids.

Messages are modelled by their fields. Ids, indexes and sizes are natural numbers: the
client syscalls of `userprog/exception.cc` send nothing for a negative one. A table index
of `-1` is `none`.
-/

namespace Nachos.Net

/-! ## Clients and requests -/

/-- A client thread as the servers know it. `tag` is auxiliary: it tells the requests of a
client apart, and no function of the model reads it. -/
structure Sender where
  machine : Nat
  mailbox : Nat
  tag : Nat
  deriving DecidableEq, Repr, Inhabited

/-- The comparison of `pktHdr` and `mailHdr` in the source. -/
def Sender.same (a b : Sender) : Bool :=
  decide (a.machine = b.machine) && decide (a.mailbox = b.mailbox)

/-- The thirteen kinds of request. -/
inductive Request where
  | createLock (name : String)
  | acquire (lockID : Nat)
  | release (lockID : Nat)
  | destroyLock (lockID : Nat)
  | createCondition (name : String)
  | wait (CVID lockID : Nat)
  | signal (CVID lockID : Nat)
  | broadcast (CVID lockID : Nat)
  | destroyCondition (CVID : Nat)
  | createMV (name : String) (size : Nat)
  | destroyMV (MVID : Nat)
  | set (MVID index : Nat) (value : Int)
  | get (MVID index : Nat)
  deriving DecidableEq, Repr

/-- A text as the server reads it with `ss >> name`: the mail ends at the first NUL, leading
white space is skipped, and the word ends at the next white space. -/
def readName (text : String) : String :=
  String.ofList (Lib.Stream.getWord (text.toList.takeWhile (· ≠ Char.ofNat 0))).1

/-- A client request as the server reads it. -/
def Request.read : Request → Request
  | .createLock name => .createLock (readName name)
  | .createCondition name => .createCondition (readName name)
  | .createMV name size => .createMV (readName name) size
  | r => r

/-- The id that decides which server owns the request; the creates have none. -/
def Request.id : Request → Option Nat
  | .createLock _ | .createCondition _ | .createMV _ _ => none
  | .acquire lockID | .release lockID | .destroyLock lockID => some lockID
  | .wait CVID _ | .signal CVID _ | .broadcast CVID _ | .destroyCondition CVID => some CVID
  | .destroyMV MVID | .set MVID _ _ | .get MVID _ => some MVID

/-- The kinds of request that the server answers. -/
def Request.answered : Request → Bool
  | .release _ | .destroyLock _ | .destroyCondition _ | .destroyMV _ => false
  | _ => true

/-- A reply to a client: the status, and the id or value of those that have one. -/
structure Answer where
  status : Bool
  value : Option Int := none
  deriving DecidableEq, Repr

/-- The contents of a mail. -/
inductive Body where
  /-- A request of a client. -/
  | client (c : Sender) (r : Request)
  /-- What `sendPendingRequest` sends. -/
  | request (requestID : Nat) (c : Sender) (r : Request)
  /-- The YES or NO of another server. -/
  | reply (requestID : Nat) (c : Sender) (r : Request) (response : Bool)
  /-- A reply to a client. -/
  | answer (c : Sender) (a : Answer)
  deriving DecidableEq, Repr

/-- The queues of clients, by table index. -/
inductive Queue where
  | lock (index : Option Nat)
  | CV (index : Option Nat)
  deriving DecidableEq, Repr

/-- What a server does that is seen outside its tables. All but `mail` and `crash` are
auxiliary: they record each run of a `serverDo...` function, each request a server starts on
behalf of a waiting client, and who enters and leaves a queue. `crash` stands for a failed
`ASSERT` or a NULL dereference. -/
inductive Out where
  | mail (dst : Nat) (body : Body)
  | exec (index : Option Nat) (c : Sender) (r : Request)
  | nested (c : Sender) (r : Request)
  | enter (queue : Queue) (c : Sender)
  | leave (queue : Queue) (c : Sender)
  | crash
  deriving DecidableEq, Repr

/-! ## Tables -/

/-- A table of the server: the vector of pointers (`none` is NULL) and its bitmap. -/
structure Table (α : Type) where
  entries : List (Option α)
  bitMap : BitMap

def lockTableSize : Nat := 100

def CVTableSize : Nat := 100

def MVTableSize : Nat := 100

namespace Table

variable {α : Type}

def empty (size : Nat) : Table α := ⟨[], BitMap.new size⟩

/-- `checkIf...IDExists` with the entry it found. -/
def get? (t : Table α) (index : Option Nat) : Option α := index.bind fun i => (t.entries[i]?).join

/-- Write an entry back. -/
def put (t : Table α) (index : Option Nat) (a : α) : Table α :=
  match index with
  | some i => { t with entries := t.entries.set i (some a) }
  | none => t

/-- Set the entry to NULL and clear its bit. -/
def remove (t : Table α) (index : Option Nat) : Table α :=
  match index with
  | some i => ⟨t.entries.set i none, t.bitMap.clear i⟩
  | none => t

/-- The first live entry with the name. -/
def findNamed (nameOf : α → String) (t : Table α) (name : String) : Option Nat :=
  t.entries.findIdx? fun e => e.any fun a => decide (nameOf a = name)

/-- Where a new entry goes: the index that `Find` marks, or `none` when the table is full.
The `Bool` says whether the `ASSERT(FALSE)` of the source was reached. -/
def insert (t : Table α) (a : α) : Table α × Option Nat × Bool :=
  match t.bitMap.find with
  | (none, _) => (t, none, false)
  | (some i, m) =>
    if i = t.entries.length then (⟨t.entries ++ [some a], m⟩, some i, false)
    else if i < t.entries.length then (⟨t.entries.set i (some a), m⟩, some i, false)
    else ({ t with bitMap := m }, some i, true)

end Table

/-! ## Locks, condition variables, monitor variables -/

/-- `enum SERVERLOCKSTATE`. -/
inductive LockState where
  | FREE
  | BUSY
  deriving DecidableEq, Repr

/-- `class ServerLock`. The owner of a lock that was never acquired is arbitrary. The
queued reply text is always the success text. -/
structure ServerLock where
  name : String
  state : LockState := .FREE
  owner : Sender := default
  q : List Sender := []
  isToBeDestroyed : Bool := false
  createLockCount : Int := 1
  deriving DecidableEq, Repr

/-- `ServerLock::isOwner`. -/
def ServerLock.isOwner (l : ServerLock) (c : Sender) : Bool :=
  l.owner.same c && decide (l.state = .BUSY)

/-- `class ServerCV`; a `waitingLock` of `-1` is `none`. -/
structure ServerCV where
  name : String
  q : List Sender := []
  waitingLock : Option Nat := none
  createCVCount : Int := 1
  deriving DecidableEq, Repr

/-- `class ServerMV`. -/
structure ServerMV where
  name : String
  size : Nat
  createMVCount : Int := 1
  v : List Int
  deriving DecidableEq, Repr

/-- `class PendingRequest`: the client, the request, and the count of servers asked and of
those that answered NO. `sentCount` is `-1` for an entry that was never sent. -/
structure PendingRequest where
  c : Sender
  r : Request
  sentCount : Int := -1
  noCount : Nat := 0
  requestID : Nat
  deriving DecidableEq, Repr

/-- The globals of one server. `others` are the other servers that are awake: those to
which `postOffice->Send` succeeds, in the order of their ids. -/
structure Server where
  netAddr : Nat
  others : List Nat
  serverLocks : Table ServerLock := .empty lockTableSize
  serverCVs : Table ServerCV := .empty CVTableSize
  serverMVs : Table ServerMV := .empty MVTableSize
  pendingRequests : List PendingRequest := []
  pendingRequestCount : Nat := 0

/-- Write a lock back. -/
def Server.putLock (s : Server) (lockID : Option Nat) (l : ServerLock) : Server :=
  { s with serverLocks := s.serverLocks.put lockID l }

/-- Write a condition variable back. -/
def Server.putCV (s : Server) (CVID : Option Nat) (cv : ServerCV) : Server :=
  { s with serverCVs := s.serverCVs.put CVID cv }

/-- Write a monitor variable back. -/
def Server.putMV (s : Server) (MVID : Option Nat) (m : ServerMV) : Server :=
  { s with serverMVs := s.serverMVs.put MVID m }

/-- A piece of server code: it changes the globals and does things seen outside. -/
def Act : Type := Server → Server × List Out

namespace Act

def skip : Act := fun s => (s, [])

def emit (o : Out) : Act := fun s => (s, [o])

/-- Change the globals only. -/
def update (u : Server → Server) : Act := fun s => (u s, [])

/-- Run one piece of code after another. -/
def andThen (f g : Act) : Act := fun s => ((g (f s).1).1, (f s).2 ++ (g (f s).1).2)

@[simp] theorem skip_apply (s : Server) : skip s = (s, []) := rfl

@[simp] theorem emit_apply (o : Out) (s : Server) : emit o s = (s, [o]) := rfl

@[simp] theorem update_apply (u : Server → Server) (s : Server) : update u s = (u s, []) := rfl

@[simp] theorem andThen_apply (f g : Act) (s : Server) :
    (f.andThen g) s = ((g (f s).1).1, (f s).2 ++ (g (f s).1).2) := rfl

end Act

/-- `sendMail` to a client. -/
def sendAnswer (c : Sender) (a : Answer) : Act := .emit (.mail c.machine (.answer c a))

end Nachos.Net

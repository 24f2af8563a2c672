import Mathlib.Data.List.Basic
import Mathlib.Logic.Function.Basic

/-!
# Threads and synchronisation: the code

The scheduler, semaphores, locks and condition variables of `threads/`, on one CPU. An
operation turns interrupts off, so it runs without a break until it ends or its thread
sleeps; what is left of it then is kept in the thread's `PC`, and is run when the thread is
next dispatched. `Condition::Broadcast` alone turns interrupts on again inside, around each
round of its loop.

`Thread::Sleep` looks for the next thread in a loop. While it finds none the CPU is `idle`,
and only interrupt handlers run: those of the devices call `Semaphore::V`.

Threads are numbered by the addresses of their `Thread` objects. The address of a thread
that has finished may be used again.
-/

namespace Nachos.Threads

/-- A `Thread *` that is not NULL. -/
abbrev ThreadId := Nat

inductive ThreadStatus where
  | JUST_CREATED
  | RUNNING
  | READY
  | BLOCKED
  deriving DecidableEq, Repr

structure Semaphore where
  value : Int
  queue : List ThreadId := []
  deriving DecidableEq, Repr

inductive LockState where
  | FREE
  | BUSY
  deriving DecidableEq, Repr

structure Lock where
  lockState : LockState := .FREE
  lockOwner : Option ThreadId := none
  queue : List ThreadId := []
  deriving DecidableEq, Repr

/-- The `waitingLock` is given by the number of the lock. -/
structure Condition where
  waitingLock : Option Nat := none
  queue : List ThreadId := []
  deriving DecidableEq, Repr

/-- What a thread has left to do of the operation it called. -/
inductive PC where
  /-- It is not in an operation. -/
  | user
  /-- The loop of `Semaphore::P`. -/
  | P (semaphore : Nat)
  /-- The end of `Lock::Acquire`, after its `Sleep`. -/
  | Acquire (lock : Nat)
  /-- The `conditionLock->Acquire()` of `Condition::Wait`, after its `Sleep`. -/
  | Wait (condition lock : Nat)
  /-- The loop of `Condition::Broadcast`, before its test. -/
  | Broadcast (condition : Nat) (conditionLock : Option Nat)
  /-- The loop of `Condition::Broadcast`, before its `Signal`. -/
  | Signal (condition : Nat) (conditionLock : Option Nat)
  deriving DecidableEq, Repr

/-- The whole kernel. `crashed` says that a NULL thread was dereferenced. The last four
fields are auxiliary: what each thread has left to do, which threads were forked and have not
finished, and which threads have returned from acquiring a lock and not released it since. -/
structure Kernel where
  currentThread : ThreadId
  readyList : List ThreadId := []
  status : ThreadId → ThreadStatus
  semaphores : Nat → Semaphore
  locks : Nat → Lock := fun _ => {}
  conditions : Nat → Condition := fun _ => {}
  crashed : Bool := false
  idle : Bool := false
  pc : ThreadId → PC := fun _ => .user
  live : ThreadId → Bool
  inside : ThreadId → Nat → Bool := fun _ _ => false

namespace Kernel

/-- The main thread runs, and the semaphores have their initial values. -/
def init (main : ThreadId) (values : Nat → Int) : Kernel where
  currentThread := main
  status := Function.update (fun _ => .JUST_CREATED) main .RUNNING
  semaphores := fun s => { value := values s }
  live := fun t => decide (t = main)

def setSemaphore (k : Kernel) (s : Nat) (a : Semaphore) : Kernel :=
  { k with semaphores := Function.update k.semaphores s a }

def setLock (k : Kernel) (lock : Nat) (a : Lock) : Kernel :=
  { k with locks := Function.update k.locks lock a }

def setCondition (k : Kernel) (condition : Nat) (a : Condition) : Kernel :=
  { k with conditions := Function.update k.conditions condition a }

/-- The current thread goes on at `pc`. -/
def goTo (k : Kernel) (pc : PC) : Kernel :=
  { k with pc := Function.update k.pc k.currentThread pc }

/-- The current thread is inside the lock from now on, or no longer. -/
def setInside (k : Kernel) (lock : Nat) (b : Bool) : Kernel :=
  let mine := Function.update (k.inside k.currentThread) lock b
  { k with inside := Function.update k.inside k.currentThread mine }

/-! ## `Scheduler` and `Thread` -/

def ReadyToRun (k : Kernel) : Option ThreadId → Kernel
  | some thread =>
    { k with
      status := Function.update k.status thread .READY
      readyList := k.readyList ++ [thread] }
  | none => { k with crashed := true }

/-- `Scheduler::Run`. -/
def Run (k : Kernel) (nextThread : ThreadId) : Kernel :=
  { k with
    currentThread := nextThread
    status := Function.update k.status nextThread .RUNNING
    idle := false }

/-- `Thread::Sleep`, up to its loop. -/
def Sleep (k : Kernel) : Kernel :=
  { k with
    status := Function.update k.status k.currentThread .BLOCKED
    idle := true }

/-- The loop of `Thread::Sleep`; `none` while no thread is ready. -/
def dispatch (k : Kernel) : Option Kernel :=
  match k.readyList with
  | [] => none
  | nextThread :: rest => some (Run { k with readyList := rest } nextThread)

def Yield (k : Kernel) : Kernel :=
  match k.readyList with
  | [] => k
  | nextThread :: rest =>
    Run (ReadyToRun { k with readyList := rest } (some k.currentThread)) nextThread

/-- `Thread::Fork` of a new thread. -/
def Fork (k : Kernel) (thread : ThreadId) : Kernel :=
  ReadyToRun { k with
    pc := Function.update k.pc thread .user
    live := Function.update k.live thread true } (some thread)

def Finish (k : Kernel) : Kernel :=
  Sleep { k with
    live := Function.update k.live k.currentThread false
    inside := Function.update k.inside k.currentThread fun _ => false }

/-! ## `Semaphore` -/

def P (k : Kernel) (semaphore : Nat) : Kernel :=
  let a := k.semaphores semaphore
  if a.value = 0 then
    ((k.setSemaphore semaphore { a with queue := a.queue ++ [k.currentThread] }).goTo
      (.P semaphore)).Sleep
  else (k.setSemaphore semaphore { a with value := a.value - 1 }).goTo .user

def V (k : Kernel) (semaphore : Nat) : Kernel :=
  let a := k.semaphores semaphore
  let k' := k.setSemaphore semaphore { a with queue := a.queue.tail, value := a.value + 1 }
  match a.queue.head? with
  | some thread => k'.ReadyToRun (some thread)
  | none => k'

/-! ## `Lock` -/

def isHeldByCurrentThread (k : Kernel) (lock : Nat) : Prop :=
  (k.locks lock).lockOwner = some k.currentThread

instance (k : Kernel) (lock : Nat) : Decidable (k.isHeldByCurrentThread lock) :=
  inferInstanceAs (Decidable (_ = _))

/-- The end of `Lock::Acquire`, which is the end of `Condition::Wait` as well. -/
def acquired (k : Kernel) (lock : Nat) : Kernel := (k.setInside lock true).goTo .user

def Acquire (k : Kernel) (lock : Nat) : Kernel :=
  let a := k.locks lock
  if k.isHeldByCurrentThread lock then k.acquired lock
  else if a.lockState = .FREE then
    (k.setLock lock { a with lockState := .BUSY, lockOwner := some k.currentThread }).acquired lock
  else
    ((k.setLock lock { a with queue := a.queue ++ [k.currentThread] }).goTo (.Acquire lock)).Sleep

def Release (k : Kernel) (lock : Nat) : Kernel :=
  let a := k.locks lock
  if ¬ k.isHeldByCurrentThread lock then k
  else if a.queue ≠ [] then
    ((k.setInside lock false).setLock lock
      { a with lockOwner := a.queue.head?, queue := a.queue.tail }).ReadyToRun a.queue.head?
  else (k.setInside lock false).setLock lock { a with lockState := .FREE, lockOwner := none }

/-! ## `Condition` -/

/-- `Condition::Wait`, up to its `Sleep`. -/
def Wait (k : Kernel) (condition : Nat) : Option Nat → Kernel
  | none => k
  | some conditionLock =>
    let a := k.conditions condition
    let waitingLock := a.waitingLock.getD conditionLock
    if conditionLock ≠ waitingLock then k
    else
      let a' := { a with waitingLock := some waitingLock, queue := a.queue ++ [k.currentThread] }
      (((k.setCondition condition a').Release waitingLock).goTo
        (.Wait condition conditionLock)).Sleep

def Signal (k : Kernel) (condition : Nat) (conditionLock : Option Nat) : Kernel :=
  let a := k.conditions condition
  if a.waitingLock = none then k
  else if a.waitingLock ≠ conditionLock then k
  else
    let waitingLock := if a.queue.tail = [] then none else a.waitingLock
    (k.setCondition condition { a with waitingLock := waitingLock, queue := a.queue.tail }).ReadyToRun
      a.queue.head?

/-- `Condition::Broadcast`, up to its loop; another lock than the `waitingLock` is only
reported. -/
def Broadcast (k : Kernel) (condition : Nat) (conditionLock : Option Nat) : Kernel :=
  if (k.conditions condition).waitingLock = none then k
  else k.goTo (.Broadcast condition conditionLock)

end Kernel

/-! ## Runs -/

/-- The operations a thread can call. -/
inductive Call where
  | P (semaphore : Nat)
  | V (semaphore : Nat)
  | Acquire (lock : Nat)
  | Release (lock : Nat)
  | Wait (condition : Nat) (conditionLock : Option Nat)
  | Signal (condition : Nat) (conditionLock : Option Nat)
  | Broadcast (condition : Nat) (conditionLock : Option Nat)
  | Yield
  | Fork (thread : ThreadId)
  | Finish
  deriving DecidableEq, Repr

/-- The steps of the kernel. -/
inductive Op where
  /-- The running thread calls an operation. -/
  | call (c : Call)
  /-- The running thread goes on with the operation it is in. -/
  | resume
  /-- The CPU is idle, and the first ready thread is taken. -/
  | dispatch
  /-- The handler of a device calls `Semaphore::V`. -/
  | interrupt (semaphore : Nat)
  /-- The timer makes the running thread yield. -/
  | timer
  deriving DecidableEq, Repr

namespace Kernel

/-- Run an operation, up to its first `Sleep` or loop. -/
def call (k : Kernel) : Call → Kernel
  | .P semaphore => k.P semaphore
  | .V semaphore => k.V semaphore
  | .Acquire lock => k.Acquire lock
  | .Release lock => k.Release lock
  | .Wait condition conditionLock => k.Wait condition conditionLock
  | .Signal condition conditionLock => k.Signal condition conditionLock
  | .Broadcast condition conditionLock => k.Broadcast condition conditionLock
  | .Yield => k.Yield
  | .Fork thread => k.Fork thread
  | .Finish => k.Finish

/-- Go on with an operation. -/
def resume (k : Kernel) : PC → Kernel
  | .user => k
  | .P semaphore => k.P semaphore
  | .Acquire lock => k.acquired lock
  | .Wait _ lock => k.Acquire lock
  | .Broadcast condition conditionLock =>
    if (k.conditions condition).queue = [] then k.goTo .user
    else k.goTo (.Signal condition conditionLock)
  | .Signal condition conditionLock =>
    (k.Signal condition conditionLock).goTo (.Broadcast condition conditionLock)

end Kernel

/-- Interrupts are on there. -/
def PC.interruptible : PC → Bool
  | .user | .Broadcast _ _ | .Signal _ _ => true
  | .P _ | .Acquire _ | .Wait _ _ => false

/-- A thread that is forked is a new one. -/
def Call.allowed (k : Kernel) : Call → Bool
  | .Fork thread => !k.live thread
  | _ => true

/-- One step; `none` where it is not possible. -/
def Kernel.next (k : Kernel) : Op → Option Kernel
  | .call c =>
    if k.idle = false ∧ k.pc k.currentThread = .user ∧ c.allowed k = true then some (k.call c)
    else none
  | .resume =>
    if k.idle = false ∧ k.pc k.currentThread ≠ .user then
      some (k.resume (k.pc k.currentThread))
    else none
  | .dispatch => if k.idle = true then k.dispatch else none
  | .interrupt semaphore =>
    if k.idle = true ∨ (k.pc k.currentThread).interruptible = true then some (k.V semaphore)
    else none
  | .timer =>
    if k.idle = false ∧ (k.pc k.currentThread).interruptible = true then some k.Yield else none

def KernelStep (k : Kernel) (op : Op) (k' : Kernel) : Prop := k.next op = some k'

end Nachos.Threads

import Nachos.BitMap
import Nachos.Threads.Synch

/-!
# Lock and condition syscalls: the code

The handlers of `exception.cc` for locks and conditions, in the kernel without the network,
for the threads of one process. A user program names a lock by its index in `lockTable`. An
object that is busy when it is destroyed is only marked, and is deleted by the `Release`,
`Signal` or `Broadcast` after which it is found not to be busy any more.

A handler runs with interrupts on. They are off inside the operations of `synch.cc`, so a
thread may lose the CPU at the end of one, before its handler goes on. What is left of the
handler then is kept in `checking`.

A `LockTableEntry` and its `Lock` are allocated and deleted together, and have one number;
so have a `ConditionTableEntry` and its `Condition`. No number is used twice. A step that
would use an object that was deleted, or a NULL entry, is not possible: what the machine
does there is undefined.
-/

namespace Nachos.Threads

def lockTableSize : Nat := 200

def ConditionTableSize : Nat := 200

structure LockTableEntry where
  isToBeDeleted : Bool := false
  deriving DecidableEq, Repr

structure ConditionTableEntry where
  isToBeDeleted : Bool := false
  deriving DecidableEq, Repr

/-- The end of `Release_Syscall`, and of `Signal_Syscall` and `Broadcast_Syscall`: the object
is deleted if it is marked and not busy. -/
inductive Check where
  | lock (index le : Nat)
  | condition (index ce : Nat)
  deriving DecidableEq, Repr

/-- The kernel with the two tables. The entries are given by their numbers. `objects` is the
number of the next object. -/
structure Tables where
  kernel : Kernel
  lockTableBitMap : BitMap := .new lockTableSize
  lockTable : Nat → Option Nat := fun _ => none
  lockEntries : Nat → Option LockTableEntry := fun _ => none
  ConditionTableBitMap : BitMap := .new ConditionTableSize
  ConditionTable : Nat → Option Nat := fun _ => none
  conditionEntries : Nat → Option ConditionTableEntry := fun _ => none
  objects : Nat := 0
  checking : ThreadId → Option Check := fun _ => none

/-- `Lock::isBusy`. -/
def Kernel.lockBusy (k : Kernel) (lock : Nat) : Bool := decide ((k.locks lock).lockState = .BUSY)

/-- `Condition::isBusy`. -/
def Kernel.conditionBusy (k : Kernel) (condition : Nat) : Bool :=
  decide ((k.conditions condition).queue ≠ [])

namespace Tables

variable (s : Tables)

/-- The running thread goes back to its program, or has a check to do before. -/
def setChecking (check : Option Check) : Tables :=
  { s with checking := Function.update s.checking s.kernel.currentThread check }

/-! ## Locks -/

/-- The entry of a lock the program may name. -/
def Lock_Syscall_InputValidation (lock : Int) : Option Nat :=
  if lock < 0 ∨ lock ≥ lockTableSize then none else s.lockTable lock.toNat

/-- A handler that returns at once when the lock is not valid, and goes on with its entry
when it is. -/
def withLock (lock : Int) (f : Nat → LockTableEntry → Tables) : Option Tables :=
  match s.Lock_Syscall_InputValidation lock with
  | none => some s
  | some le => (s.lockEntries le).map (f le)

def CreateLock_Syscall : Tables :=
  match s.lockTableBitMap.find with
  | (none, _) => s
  | (some lockTableIndex, lockTableBitMap) =>
    { s with
      kernel := s.kernel.setLock s.objects {}
      lockTableBitMap := lockTableBitMap
      lockTable := Function.update s.lockTable lockTableIndex (some s.objects)
      lockEntries := Function.update s.lockEntries s.objects (some {})
      objects := s.objects + 1 }

def deleteLock (lock le : Nat) : Tables :=
  { s with
    lockTable := Function.update s.lockTable lock none
    lockEntries := Function.update s.lockEntries le none
    lockTableBitMap := s.lockTableBitMap.clear lock }

def Acquire_Syscall (lock : Int) : Option Tables :=
  s.withLock lock fun le _ => { s with kernel := s.kernel.Acquire le }

/-- `Release_Syscall`, up to its check. -/
def Release_Syscall (lock : Int) : Option Tables :=
  s.withLock lock fun le _ =>
    { s.setChecking (some (.lock lock.toNat le)) with kernel := s.kernel.Release le }

def DestroyLock_Syscall (lock : Int) : Option Tables :=
  s.withLock lock fun le _ =>
    if s.kernel.lockBusy le then
      { s with lockEntries := Function.update s.lockEntries le (some { isToBeDeleted := true }) }
    else s.deleteLock lock.toNat le

/-! ## Conditions -/

/-- The entries of a condition and a lock the program may name. -/
def Condition_Syscall_InputValidation (cond lock : Int) : Option (Nat × Nat) :=
  match s.Lock_Syscall_InputValidation lock with
  | none => none
  | some le =>
    if cond < 0 ∨ cond ≥ ConditionTableSize then none
    else (s.ConditionTable cond.toNat).map fun ce => (ce, le)

/-- A handler that goes on with the two entries when condition and lock are valid. -/
def withCondition (condition lock : Int) (f : Nat → Nat → Tables) : Option Tables :=
  match s.Condition_Syscall_InputValidation condition lock with
  | none => some s
  | some (ce, le) =>
    match s.conditionEntries ce, s.lockEntries le with
    | some _, some _ => some (f ce le)
    | _, _ => none

def CreateCondition_Syscall : Tables :=
  match s.ConditionTableBitMap.find with
  | (none, _) => s
  | (some conID, ConditionTableBitMap) =>
    { s with
      kernel := s.kernel.setCondition s.objects {}
      ConditionTableBitMap := ConditionTableBitMap
      ConditionTable := Function.update s.ConditionTable conID (some s.objects)
      conditionEntries := Function.update s.conditionEntries s.objects (some {})
      objects := s.objects + 1 }

def deleteCondition (condition ce : Nat) : Tables :=
  { s with
    ConditionTable := Function.update s.ConditionTable condition none
    conditionEntries := Function.update s.conditionEntries ce none
    ConditionTableBitMap := s.ConditionTableBitMap.clear condition }

def Wait_Syscall (condition lock : Int) : Option Tables :=
  s.withCondition condition lock fun ce le => { s with kernel := s.kernel.Wait ce (some le) }

/-- `Signal_Syscall`, up to its check. -/
def Signal_Syscall (condition lock : Int) : Option Tables :=
  s.withCondition condition lock fun ce le =>
    { s.setChecking (some (.condition condition.toNat ce)) with
      kernel := s.kernel.Signal ce (some le) }

/-- `Broadcast_Syscall`, up to the loop of `Condition::Broadcast`, or to its check. -/
def Broadcast_Syscall (condition lock : Int) : Option Tables :=
  s.withCondition condition lock fun ce le =>
    { s.setChecking (some (.condition condition.toNat ce)) with
      kernel := s.kernel.Broadcast ce (some le) }

/-- The index is not validated. -/
def DestroyCondition_Syscall (condition : Int) : Option Tables :=
  if condition < 0 ∨ condition ≥ ConditionTableSize then none
  else match s.ConditionTable condition.toNat with
  | none => none
  | some ce => (s.conditionEntries ce).map fun _ =>
    if s.kernel.conditionBusy ce then
      { s with
        conditionEntries :=
          Function.update s.conditionEntries ce (some { isToBeDeleted := true }) }
    else s.deleteCondition condition.toNat ce

/-- The deferred deletion. -/
def check : Check → Option Tables
  | .lock lock le => (s.lockEntries le).map fun a =>
    if a.isToBeDeleted ∧ ¬ s.kernel.lockBusy le then s.deleteLock lock le else s
  | .condition condition ce => (s.conditionEntries ce).map fun a =>
    if a.isToBeDeleted ∧ ¬ s.kernel.conditionBusy ce then s.deleteCondition condition ce else s

end Tables

/-! ## Runs -/

inductive Syscall where
  | CreateLock
  | Acquire (lock : Int)
  | Release (lock : Int)
  | DestroyLock (lock : Int)
  | CreateCondition
  | Wait (condition lock : Int)
  | Signal (condition lock : Int)
  | Broadcast (condition lock : Int)
  | DestroyCondition (condition : Int)
  deriving DecidableEq, Repr

def Tables.syscall (s : Tables) : Syscall → Option Tables
  | .CreateLock => some s.CreateLock_Syscall
  | .Acquire lock => s.Acquire_Syscall lock
  | .Release lock => s.Release_Syscall lock
  | .DestroyLock lock => s.DestroyLock_Syscall lock
  | .CreateCondition => some s.CreateCondition_Syscall
  | .Wait condition lock => s.Wait_Syscall condition lock
  | .Signal condition lock => s.Signal_Syscall condition lock
  | .Broadcast condition lock => s.Broadcast_Syscall condition lock
  | .DestroyCondition condition => s.DestroyCondition_Syscall condition

/-- The operations of the kernel that threads call outside the handlers above. -/
def Call.outside : Call → Bool
  | .P _ | .V _ | .Yield | .Fork _ | .Finish => true
  | .Acquire _ | .Release _ | .Wait _ _ | .Signal _ _ | .Broadcast _ _ => false

/-- The objects that a thread uses when it goes on have not been deleted. -/
def Tables.alive (s : Tables) : PC → Bool
  | .user | .P _ | .Acquire _ => true
  | .Wait _ lock => (s.lockEntries lock).isSome
  | .Broadcast condition _ | .Signal condition _ => (s.conditionEntries condition).isSome

/-- A step of the kernel that is no step of a handler. -/
def Tables.possible (s : Tables) : Op → Bool
  | .call c => c.outside && (s.checking s.kernel.currentThread).isNone
  | .resume => s.alive (s.kernel.pc s.kernel.currentThread)
  | .dispatch | .interrupt _ | .timer => true

/-- The steps of the kernel with the tables. -/
inductive TablesOp where
  /-- The running program makes a syscall. -/
  | syscall (c : Syscall)
  /-- The running thread ends its syscall with the check. -/
  | check
  /-- Any other step. -/
  | kernel (op : Op)
  deriving DecidableEq, Repr

/-- One step; `none` where it is not possible. -/
def Tables.next (s : Tables) : TablesOp → Option Tables
  | .syscall c =>
    let t := s.kernel.currentThread
    if s.kernel.idle = false ∧ s.kernel.pc t = .user ∧ s.checking t = none then s.syscall c
    else none
  | .check =>
    let t := s.kernel.currentThread
    if s.kernel.idle = false ∧ s.kernel.pc t = .user then
      (s.checking t).bind fun check => (s.check check).map fun s' => s'.setChecking none
    else none
  | .kernel op =>
    if s.possible op then (s.kernel.next op).map fun kernel => { s with kernel := kernel } else none

def TablesStep (s : Tables) (op : TablesOp) (s' : Tables) : Prop := s.next op = some s'

/-- No lock and no condition has been created yet. -/
def Tables.init (main : ThreadId) (values : Nat → Int) : Tables where
  kernel := .init main values

end Nachos.Threads

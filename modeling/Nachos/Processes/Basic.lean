import Nachos.Threads.Synch
import Nachos.VM.System

/-!
# Processes: the code

`StartProcess`, `Fork_Syscall`, `kernel_thread`, `Exec_Syscall`, `kernel_exec` and
`Exit_Syscall` (`userprog/exception.cc`, `progtest.cc`) with the `ProcessTable`
(`threads/system.cc`), over the machine of the paging code, which keeps the threads and the
address spaces.

A syscall is cut where its thread can lose the CPU or sleep; `Stage` says which piece comes
next. A thread whose `Acquire` finds the lock busy is in the queue of the lock, and goes on
when `Release` has made it the owner. The scheduler may switch at any cut, also inside
`Exit_Syscall` and `kernel_exec`, where interrupts are off and only a sleep gives the CPU away.

Every executable opens. The error returns of `Exec_Syscall` are left out: `new` throws where it
has no memory, and `copyin` tries again until each byte is read, so it returns the length.
A thread that has left its process finishes in the same step.
-/

namespace Nachos.Processes

open VM (Executable)

/-! ## `ProcessTable` -/

structure ProcessTableEntry where
  /-- The `AddrSpace *`. -/
  space : Nat
  numThreads : Int := 1
  deriving DecidableEq, Repr

def ProcessTableEntry.addThread (p : ProcessTableEntry) : ProcessTableEntry :=
  { p with numThreads := p.numThreads + 1 }

def ProcessTableEntry.removeThread (p : ProcessTableEntry) : ProcessTableEntry :=
  { p with numThreads := if p.numThreads - 1 < 0 then 0 else p.numThreads - 1 }

/-- `class ProcessTableClass`: `entries` holds pointers to the objects `entry`; `count` is the
number of the next object. -/
structure ProcessTableClass where
  entries : List Nat := []
  entry : Nat → ProcessTableEntry := fun _ => ⟨0, 0⟩
  count : Nat := 0

namespace ProcessTableClass

variable (table : ProcessTableClass)

def getNumProcesses : Nat := table.entries.length

def getProcessEntry (space : Nat) : Option Nat :=
  table.entries.find? fun p => decide ((table.entry p).space = space)

/-- The new object is not put into the table when the space is there already. -/
def addProcess (space : Nat) : ProcessTableClass :=
  { entries :=
      if (table.getProcessEntry space).isSome then table.entries
      else table.entries ++ [table.count]
    entry := Function.update table.entry table.count { space := space }
    count := table.count + 1 }

def deleteProcess (space : Nat) : ProcessTableClass :=
  { table with entries := table.entries.eraseP fun p => decide ((table.entry p).space = space) }

/-- A method of one entry. -/
def modEntry (p : Nat) (f : ProcessTableEntry → ProcessTableEntry) : ProcessTableClass :=
  { table with entry := Function.update table.entry p (f (table.entry p)) }

end ProcessTableClass

/-! ## The state -/

/-- What a user thread does next. -/
inductive Stage where
  | StartProcess
  /-- Its program, or a syscall of another kind. -/
  | user
  /-- `Fork_Syscall`, after `kernel_threadLock.Acquire()`. -/
  | ForkCount
  /-- `Fork_Syscall`, from its `new Thread` on. -/
  | ForkThread
  | kernel_thread
  /-- `Exec_Syscall`, after `execLock.Acquire()`. -/
  | ExecCount
  /-- `Exec_Syscall`, from its `copyin` on. -/
  | ExecThread
  | kernel_exec
  /-- `kernel_exec`, after `execLock.Acquire()`. -/
  | kernel_execCount
  /-- `Exit_Syscall`, after `execLock.Acquire()`. -/
  | ExitLock (p : Option Nat)
  /-- `Exit_Syscall`, after `kernel_threadLock.Acquire()`. -/
  | ExitCase (p : Option Nat)
  deriving DecidableEq, Repr

/-- The kernel. `halted` says that `Exit_Syscall` has called `Halt`, and `crashed` that a NULL
entry was dereferenced or the assertion of `AddrSpace::Exit` failed. -/
structure Machine where
  vm : VM.Kernel
  ProcessTable : ProcessTableClass := {}
  execCalled : Int := 0
  execLock : Threads.Lock := {}
  kernel_threadLock : Threads.Lock := {}
  stage : Nat → Stage
  halted : Bool := false
  crashed : Bool := false

/-- `Lock::Acquire` by the thread: it has the lock, or is queued. -/
def Acquire (a : Threads.Lock) (tid : Nat) : Threads.Lock :=
  if a.lockOwner = some tid then a
  else if a.lockState = .FREE then { a with lockState := .BUSY, lockOwner := some tid }
  else { a with queue := a.queue ++ [tid] }

/-- `Lock::Release` by the thread. -/
def Release (a : Threads.Lock) (tid : Nat) : Threads.Lock :=
  if a.lockOwner ≠ some tid then a
  else if a.queue ≠ [] then { a with lockOwner := a.queue.head?, queue := a.queue.tail }
  else { a with lockState := .FREE, lockOwner := none }

namespace Machine

variable (m : Machine)

def init (useFIFO : Bool) : Machine where
  vm := .init useFIFO
  stage := fun _ => .StartProcess

/-- The thread sleeps in `Acquire`. -/
def sleeping (tid : Nat) : Bool :=
  decide (tid ∈ m.execLock.queue ∨ tid ∈ m.kernel_threadLock.queue)

def goTo (tid : Nat) (stage : Stage) : Machine :=
  { m with stage := Function.update m.stage tid stage }

/-- `ProcessTable->getProcessEntry(currentThread->space)`. -/
def currentEntry : Option Nat := m.vm.currentSpace.bind m.ProcessTable.getProcessEntry

/-- `new AddrSpace` and `addProcess`, by the running thread. -/
def newProcess (tid : Nat) (exe : Executable) : Machine :=
  { m with
    vm := VM.createSpace m.vm tid exe
    ProcessTable := m.ProcessTable.addProcess m.vm.spaceCount }

/-- `new Thread` and `Thread::Fork`: the new thread starts at `stage`. -/
def newThread (space : Option Nat) (stage : Stage) : Machine :=
  { m with
    vm := VM.newThread m.vm space
    stage := Function.update m.stage m.vm.threadIDCount stage }

/-! ## The pieces of the syscalls -/

def StartProcess (tid : Nat) (exe : Executable) : Machine := (m.newProcess tid exe).goTo tid .user

/-- `Fork_Syscall` begins. -/
def Fork (tid : Nat) : Machine :=
  { m.goTo tid .ForkCount with kernel_threadLock := Acquire m.kernel_threadLock tid }

/-- The process has one more thread. -/
def forkCount (tid : Nat) : Machine :=
  match m.currentEntry with
  | none => { m with crashed := true }
  | some p =>
    { m.goTo tid .ForkThread with
      ProcessTable := m.ProcessTable.modEntry p ProcessTableEntry.addThread
      kernel_threadLock := Release m.kernel_threadLock tid }

def forkThread (tid : Nat) : Machine :=
  (m.newThread m.vm.currentSpace .kernel_thread).goTo tid .user

/-- `kernel_thread`: `AddrSpace::Fork`, and the program runs. -/
def kernel_thread (tid : Nat) (junk : Nat → Int) : Machine :=
  match m.vm.running with
  | some (_, s, sp) => { m.goTo tid .user with vm := m.vm.setSpace s (sp.fork tid junk) }
  | none => { m with crashed := true }

/-- `Exec_Syscall` begins. -/
def Exec (tid : Nat) : Machine :=
  { m.goTo tid .ExecCount with execLock := Acquire m.execLock tid }

def execCount (tid : Nat) : Machine :=
  { m.goTo tid .ExecThread with
    execCalled := m.execCalled + 1
    execLock := Release m.execLock tid }

def execThread (tid : Nat) : Machine := (m.newThread none .kernel_exec).goTo tid .user

/-- `kernel_exec`, up to its lock. -/
def kernel_exec (tid : Nat) (exe : Executable) : Machine :=
  { (m.newProcess tid exe).goTo tid .kernel_execCount with
    execLock := Acquire m.execLock tid }

def kernel_execCount (tid : Nat) : Machine :=
  { m.goTo tid .user with
    execCalled := m.execCalled - 1
    execLock := Release m.execLock tid }

/-- `Exit_Syscall` begins. -/
def Exit (tid : Nat) : Machine :=
  { m.goTo tid (.ExitLock m.currentEntry) with execLock := Acquire m.execLock tid }

def exitLock (tid : Nat) (p : Option Nat) : Machine :=
  { m.goTo tid (.ExitCase p) with kernel_threadLock := Acquire m.kernel_threadLock tid }

end Machine

/-- The three cases of `Exit_Syscall`. -/
inductive ExitCase where
  /-- `currentThread->space->Exit()`. -/
  | Exit
  /-- `interrupt->Halt()`. -/
  | Halt
  /-- `delete currentThread->space`. -/
  | delete
  deriving DecidableEq, Repr

namespace Machine

variable (m : Machine)

/-- Which case the thread is in whose entry is `p`. -/
def exitCase (p : Nat) : ExitCase :=
  if (m.ProcessTable.entry p).numThreads > 1 then .Exit
  else if (m.ProcessTable.entry p).numThreads = 1 ∧ m.ProcessTable.getNumProcesses = 1 ∧
      m.execCalled = 0 then .Halt
  else .delete

/-- Both locks are given up. -/
def releaseBoth (tid : Nat) : Machine :=
  { m with
    execLock := Release m.execLock tid
    kernel_threadLock := Release m.kernel_threadLock tid }

/-- The case is carried out; `junk` is what the destructor reads past the page table. -/
def leave (tid s p : Nat) (stackPages : List Nat) (junk : Nat → Int) : ExitCase → Machine
  | .Exit =>
    match VM.exitStack m.vm s stackPages with
    | .error _ => { m with crashed := true }
    | .ok vm =>
      { m.releaseBoth tid with
        ProcessTable := m.ProcessTable.modEntry p ProcessTableEntry.removeThread
        vm := vm.finish tid }
  | .Halt => { m with halted := true }
  | .delete =>
    { m.releaseBoth tid with
      ProcessTable := m.ProcessTable.deleteProcess s
      vm := (VM.deleteSpace m.vm s junk).finish tid }

/-- A thread that has a stack is cleared away, and its process goes on. -/
theorem leave_Exit {tid s p : Nat} {stackPages : List Nat} {junk : Nat → Int}
    (hlength : VM.stackPageCount ≤ stackPages.length) :
    m.leave tid s p stackPages junk .Exit = { m.releaseBoth tid with
      ProcessTable := m.ProcessTable.modEntry p ProcessTableEntry.removeThread
      vm := (VM.clearStack m.vm s stackPages).finish tid } := by
  simp only [leave, VM.exitStack_iff.mpr ⟨hlength, rfl⟩]

/-- The rest of `Exit_Syscall`. -/
def exit (tid : Nat) (junk : Nat → Int) : Option Nat → Machine
  | none => { m with crashed := true }
  | some p =>
    match m.vm.running with
    | some (_, s, sp) => m.leave tid s p ((sp.threadTable tid).getD []) junk (m.exitCase p)
    | none => { m with crashed := true }

end Machine

/-! ## Runs -/

inductive Op where
  /-- The scheduler switches to the thread. -/
  | run (tid : Nat)
  /-- The running thread reads or writes user memory. -/
  | access (op : VM.Op)
  /-- The running program calls `Fork`, `Exec` or `Exit`. -/
  | Fork
  | Exec
  | Exit
  /-- The running thread goes on; the arguments are what a constructor reads from the
  executable, and uninitialised memory. -/
  | resume (exe : Executable) (junk : Nat → Int)

namespace Machine

variable (m : Machine)

/-- The next piece of what the running thread is in. -/
def resume (tid : Nat) (exe : Executable) (junk : Nat → Int) : Stage → Option Machine
  | .StartProcess => some (m.StartProcess tid exe)
  | .user => none
  | .ForkCount => some (m.forkCount tid)
  | .ForkThread => some (m.forkThread tid)
  | .kernel_thread => some (m.kernel_thread tid junk)
  | .ExecCount => some (m.execCount tid)
  | .ExecThread => some (m.execThread tid)
  | .kernel_exec => some (m.kernel_exec tid exe)
  | .kernel_execCount => some (m.kernel_execCount tid)
  | .ExitLock p => some (m.exitLock tid p)
  | .ExitCase p => some (m.exit tid junk p)

/-- User memory is accessed by programs, and by `copyin` in `Exec_Syscall`. -/
def accesses (tid : Nat) : VM.Op → Bool
  | .load _ _ | .store _ _ _ => decide (m.stage tid = .user ∨ m.stage tid = .ExecThread)
  | _ => false

/-- A step of the running thread. -/
def act (tid : Nat) : Op → Option Machine
  | .run _ => none
  | .access op =>
    if m.accesses tid op then (VM.step? m.vm op).map fun vm => { m with vm := vm } else none
  | .Fork => if m.stage tid = .user then some (m.Fork tid) else none
  | .Exec => if m.stage tid = .user then some (m.Exec tid) else none
  | .Exit => if m.stage tid = .user then some (m.Exit tid) else none
  | .resume exe junk => m.resume tid exe junk (m.stage tid)

/-- One step; `none` where it is not possible. -/
def next (op : Op) : Option Machine :=
  if m.halted ∨ m.crashed then none
  else match op with
  | .run tid =>
    if (m.vm.threads tid).isSome ∧ m.sleeping tid = false then
      some { m with vm := VM.schedulerRun m.vm tid }
    else none
  | op =>
    match m.vm.currentThread with
    | none => none
    | some tid =>
      if (m.vm.threads tid).isSome ∧ m.sleeping tid = false then m.act tid op else none

end Machine

def MachineStep (m : Machine) (op : Op) (m' : Machine) : Prop := m.next op = some m'

end Nachos.Processes

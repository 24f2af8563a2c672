import Nachos.Lib.Path
import Nachos.VM.Space

/-!
# The machine: threads, spaces and the operations that move it

One operation is one uninterrupted piece of the kernel: a byte access (which completes or
faults), a context switch, the creation of a thread, of a process or of a forked stack, the
exit of a thread and the deletion of a space. Runs are `Lib.Path`s of these operations,
in any order and by any threads, as far as `enabled` allows.

`enabled` says who may call what: `AddrSpace::Fork` is the first thing a forked thread does
(`kernel_thread`), `AddrSpace::Exit` and the deletion of the space are called by the thread
that leaves, and a space is deleted by its last thread (`Exit_Syscall`).
-/

namespace Nachos.VM

/-- The operations. `r` is the `rand()` of the RAND policy, `junk` stands for
uninitialised or foreign memory. -/
inductive Op where
  /-- The running thread loads the byte at `addr`. -/
  | load (addr r : Nat)
  /-- The running thread stores a byte at `addr`. -/
  | store (addr : Nat) (value : UInt8) (r : Nat)
  /-- `Scheduler::Run`: switch to the thread. -/
  | run (tid : Nat)
  /-- `new Thread`, in the space of the running thread (`Fork_Syscall`) or in none
  (`Exec_Syscall`). -/
  | newThread (forked : Bool)
  /-- `new AddrSpace` by the running thread, whose space it becomes. -/
  | create (exe : Executable)
  /-- `AddrSpace::Fork` by the running thread. -/
  | fork (junk : Nat → Int)
  /-- `AddrSpace::Exit` by the running thread, which then finishes. -/
  | exit
  /-- `delete currentThread->space` by the running thread, which then finishes. -/
  | delete (junk : Nat → Int)

/-- The address of a byte access. -/
def Op.address : Op → Option Nat
  | .load addr _ => some addr
  | .store addr _ _ => some addr
  | _ => none

/-- The `rand()` of a byte access. -/
def Op.random : Op → Nat
  | .load _ r => r
  | .store _ _ r => r
  | _ => 0

/-- What a user program sees of an operation. -/
inductive Event where
  | loaded (s addr : Nat) (value : UInt8)
  | stored (s addr : Nat) (value : UInt8)
  | quiet
  deriving DecidableEq, Repr

/-- The running thread, with its live space. -/
def Kernel.running (k : Kernel) : Option (Nat × Nat × AddrSpace) := do
  let tid ← k.currentThread
  let s ← (k.threads tid).join
  let sp ← k.spaces s
  some (tid, s, sp)

/-- Who may do what; see the header. -/
def enabled (k : Kernel) : Op → Bool
  | .load _ _ => k.running.isSome
  | .store _ _ _ => k.running.isSome
  | .run tid => (k.threads tid).isSome
  | .newThread forked => !forked || k.running.isSome
  | .create _ => decide (k.currentThread.bind k.threads = some none)
  | .fork _ => k.running.any fun (tid, _, sp) => (sp.threadTable tid).isNone
  | .exit => k.running.any fun (tid, _, sp) => (sp.threadTable tid).isSome
  | .delete _ => k.running.any fun (tid, s, _) =>
      (List.range k.threadIDCount).all fun other =>
        decide (other = tid) || decide (k.threads other ≠ some (some s))

/-- `Thread::Finish`: the thread is gone and no thread runs until the next switch. -/
def Kernel.finish (k : Kernel) (tid : Nat) : Kernel :=
  { k with threads := Function.update k.threads tid none, currentThread := none }

/-- `Scheduler::Run`. -/
def schedulerRun (k : Kernel) (nextThread : Nat) : Kernel :=
  { (if k.currentSpace.isSome then saveState k else k) with currentThread := some nextThread }

/-- `new Thread`. -/
def newThread (k : Kernel) (space : Option Nat) : Kernel :=
  { k with
    threads := Function.update k.threads k.threadIDCount (some space)
    threadIDCount := k.threadIDCount + 1 }

/-- `new AddrSpace` by the thread `tid`. -/
def createSpace (k : Kernel) (tid : Nat) (exe : Executable) : Kernel :=
  { k.setSpace k.spaceCount (AddrSpace.new exe tid) with
    spaceCount := k.spaceCount + 1
    threads := Function.update k.threads tid (some (some k.spaceCount)) }

/-- The operations as functions; meant for states in which the operation is enabled. -/
def next (k : Kernel) : Op → Except Stop (Kernel × Event)
  | .load addr r =>
    match k.running with
    | some (_, s, _) =>
      match readMem k s addr r with
      | .error stop => .error stop
      | .ok (k, some value) => .ok (k, .loaded s addr value)
      | .ok (k, none) => .ok (k, .quiet)
    | none => .ok (k, .quiet)
  | .store addr value r =>
    match k.running with
    | some (_, s, _) =>
      match writeMem k s addr value r with
      | .error stop => .error stop
      | .ok (k, true) => .ok (k, .stored s addr value)
      | .ok (k, false) => .ok (k, .quiet)
    | none => .ok (k, .quiet)
  | .run tid => .ok (schedulerRun k tid, .quiet)
  | .newThread forked => .ok (newThread k (if forked then k.currentSpace else none), .quiet)
  | .create exe =>
    match k.currentThread with
    | some tid => .ok (createSpace k tid exe, .quiet)
    | none => .ok (k, .quiet)
  | .fork junk =>
    match k.running with
    | some (tid, s, sp) => .ok (k.setSpace s (sp.fork tid junk), .quiet)
    | none => .ok (k, .quiet)
  | .exit =>
    match k.running with
    | some (tid, s, sp) =>
      match exitStack k s ((sp.threadTable tid).getD []) with
      | .error stop => .error stop
      | .ok k => .ok (k.finish tid, .quiet)
    | none => .ok (k, .quiet)
  | .delete junk =>
    match k.running with
    | some (tid, s, _) => .ok ((deleteSpace k s junk).finish tid, .quiet)
    | none => .ok (k, .quiet)

/-- One step of the machine that does not stop it. -/
def Step (k : Kernel) (op : Op) (k' : Kernel) : Prop :=
  enabled k op = true ∧ ∃ event, next k op = .ok (k', event)

/-- The step as a function, for running a list of operations. -/
def step? (k : Kernel) (op : Op) : Option Kernel :=
  if enabled k op then (next k op).toOption.map Prod.fst else none

theorem step_of_step? {k k' : Kernel} {op : Op} (h : step? k op = some k') : Step k op k' := by
  unfold step? at h
  split at h
  · rename_i hen
    cases hn : next k op with
    | error stop => simp [hn, Except.toOption] at h
    | ok res =>
      simp only [hn, Except.toOption, Option.map_some, Option.some.injEq] at h
      exact ⟨hen, res.2, by rw [← h]; exact hn⟩
  · cases h

/-- `vpn` is one of the stack pages of a thread of the space that has exited. -/
def exitedStack (k : Kernel) (s vpn : Nat) : Bool :=
  (k.spaces s).any fun sp => (List.range k.threadIDCount).any fun tid =>
    (k.threads tid).isNone && (sp.threadTable tid).any fun pages => decide (vpn ∈ pages)

theorem exitedStack_iff {k : Kernel} {s vpn : Nat} : exitedStack k s vpn = true ↔
    ∃ sp tid pages, k.spaces s = some sp ∧ tid < k.threadIDCount ∧ k.threads tid = none ∧
      sp.threadTable tid = some pages ∧ vpn ∈ pages := by
  simp only [exitedStack, Option.any_eq_true, List.any_eq_true, List.mem_range, Bool.and_eq_true,
    Option.isNone_iff_eq_none, decide_eq_true_eq]
  constructor
  · rintro ⟨sp, hs, tid, hlt, hnone, pages, hpages, hv⟩
    exact ⟨sp, tid, pages, hs, hlt, hnone, hpages, hv⟩
  · rintro ⟨sp, tid, pages, hs, hlt, hnone, hpages, hv⟩
    exact ⟨sp, hs, tid, hlt, hnone, pages, hpages, hv⟩

theorem running_some {k : Kernel} {tid s : Nat} {sp : AddrSpace}
    (h : k.running = some (tid, s, sp)) :
    k.currentThread = some tid ∧ k.threads tid = some (some s) ∧ k.spaces s = some sp ∧
      k.currentSpace = some s := by
  unfold Kernel.running at h
  cases hc : k.currentThread with
  | none => simp [hc] at h
  | some t =>
    cases ht : k.threads t with
    | none => simp [hc, ht] at h
    | some o =>
      cases o with
      | none => simp [hc, ht] at h
      | some q =>
        cases hq : k.spaces q with
        | none => simp [hc, ht, hq] at h
        | some sq =>
          simp only [hc, ht, hq, Option.join_some, Option.bind_eq_bind, Option.bind_some,
            Option.some.injEq, Prod.mk.injEq] at h
          obtain ⟨rfl, rfl, rfl⟩ := h
          refine ⟨rfl, ht, hq, ?_⟩
          simp [Kernel.currentSpace, hc, ht]

/-! ## What a step can do

One case per kind of step. A byte access either completes on a TLB hit, with the machine
unchanged up to the TLB bits and the stored byte, or is a TLB miss; every later case
analysis goes through this lemma. -/

/-- The step of one operation, with the event it shows. -/
inductive StepSpec (k : Kernel) : Op → Kernel → Event → Prop where
  | loadHit {tid s sp addr r k' pa} (hrun : k.running = some (tid, s, sp))
      (htr : translate k addr false = .ok (k', pa)) :
      StepSpec k (.load addr r) k' (.loaded s addr (k'.mainMemory pa))
  | storeHit {tid s sp addr value r k' pa} (hrun : k.running = some (tid, s, sp))
      (htr : translate k addr true = .ok (k', pa)) :
      StepSpec k (.store addr value r)
        { k' with mainMemory := Function.update k'.mainMemory pa value } (.stored s addr value)
  | miss {op tid s sp addr k'} (hop : op.address = some addr)
      (hrun : k.running = some (tid, s, sp))
      (hmiss : tlbEntryOfPage k (addr / PageSize) = none)
      (hfault : handleTLBMiss k s addr op.random = .ok k') : StepSpec k op k' .quiet
  | run {tid space} (hthread : k.threads tid = some space) :
      StepSpec k (.run tid) (schedulerRun k tid) .quiet
  | newThread {forked} (space : Option Nat) (hspace : ∀ s, space = some s →
        k.currentSpace = some s ∧ ∃ sp, k.spaces s = some sp) :
      StepSpec k (.newThread forked) (newThread k space) .quiet
  | create {tid} (hcur : k.currentThread = some tid) (hthread : k.threads tid = some none)
      (exe : Executable) : StepSpec k (.create exe) (createSpace k tid exe) .quiet
  | fork {tid s sp} (hrun : k.running = some (tid, s, sp)) (hfresh : sp.threadTable tid = none)
      (junk : Nat → Int) : StepSpec k (.fork junk) (k.setSpace s (sp.fork tid junk)) .quiet
  | exit {tid s sp pages} (hrun : k.running = some (tid, s, sp))
      (hpages : sp.threadTable tid = some pages) :
      StepSpec k .exit ((clearStack k s pages).finish tid) .quiet
  | delete {tid s sp} (hrun : k.running = some (tid, s, sp)) (junk : Nat → Int) :
      StepSpec k (.delete junk) ((deleteSpace k s junk).finish tid) .quiet

/-- `Translate` raises a page fault exactly when no TLB entry holds the page. -/
theorem translate_pageFault {k : Kernel} {addr : Nat} {w : Bool}
    (h : translate k addr w = .error .PageFaultException) :
    tlbEntryOfPage k (addr / PageSize) = none := by
  unfold translate at h
  split at h
  · assumption
  · simp only at h
    split at h
    · cases h
    · split at h <;> cases h

/-- A failed access that returns to the user program was a TLB miss. -/
theorem StepSpec.ofFault {k k' : Kernel} {op : Op} {tid s addr : Nat} {sp : AddrSpace} {w : Bool}
    {which : ExceptionType} (hop : op.address = some addr) (hrun : k.running = some (tid, s, sp))
    (htr : translate k addr w = .error which)
    (hf : raiseException k which s addr op.random = .ok k') : StepSpec k op k' .quiet := by
  cases which with
  | PageFaultException => exact .miss hop hrun (translate_pageFault htr) hf
  | ReadOnlyException => cases hf
  | BusErrorException => cases hf

/-- **Every step is one of the cases of `StepSpec`.** -/
theorem next_spec {k k' : Kernel} {op : Op} {event : Event} (hen : enabled k op = true)
    (h : next k op = .ok (k', event)) : StepSpec k op k' event := by
  cases op with
  | load addr r =>
    obtain ⟨⟨tid, s, sp⟩, hrun⟩ := Option.isSome_iff_exists.mp hen
    simp only [next, hrun, readMem] at h
    cases htr : translate k addr false with
    | ok res =>
      obtain ⟨k₁, pa⟩ := res
      simp only [htr] at h
      cases h
      exact .loadHit hrun htr
    | error which =>
      simp only [htr] at h
      cases hf : raiseException k which s addr r with
      | error stop => simp [hf, Except.map] at h
      | ok k₁ =>
        simp only [hf, Except.map] at h
        cases h
        exact .ofFault rfl hrun htr hf
  | store addr value r =>
    obtain ⟨⟨tid, s, sp⟩, hrun⟩ := Option.isSome_iff_exists.mp hen
    simp only [next, hrun, writeMem] at h
    cases htr : translate k addr true with
    | ok res =>
      obtain ⟨k₁, pa⟩ := res
      simp only [htr] at h
      cases h
      exact .storeHit hrun htr
    | error which =>
      simp only [htr] at h
      cases hf : raiseException k which s addr r with
      | error stop => simp [hf, Except.map] at h
      | ok k₁ =>
        simp only [hf, Except.map] at h
        cases h
        exact .ofFault rfl hrun htr hf
  | run tid =>
    obtain ⟨sp, hthread⟩ := Option.isSome_iff_exists.mp hen
    cases h
    exact .run hthread
  | newThread forked =>
    cases h
    refine .newThread _ ?_
    intro s hs
    cases forked with
    | false => simp at hs
    | true =>
      obtain ⟨⟨tid, s', sp⟩, hrun⟩ := Option.isSome_iff_exists.mp (by simpa [enabled] using hen)
      obtain ⟨-, -, hsp, hcur⟩ := running_some hrun
      simp only [if_true, hcur, Option.some.injEq] at hs
      subst hs
      exact ⟨hcur, sp, hsp⟩
  | create exe =>
    obtain ⟨tid, hcur, hthread⟩ := Option.bind_eq_some_iff.mp (of_decide_eq_true hen)
    simp only [next, hcur] at h
    cases h
    exact .create hcur hthread exe
  | fork junk =>
    obtain ⟨⟨tid, s, sp⟩, hrun, hfresh⟩ := (Option.any_eq_true _ _).mp hen
    simp only [next, hrun] at h
    cases h
    exact .fork hrun (Option.isNone_iff_eq_none.mp hfresh) junk
  | exit =>
    obtain ⟨⟨tid, s, sp⟩, hrun, hin⟩ := (Option.any_eq_true _ _).mp hen
    obtain ⟨pages, hpages⟩ := Option.isSome_iff_exists.mp hin
    simp only [next, hrun, hpages, Option.getD_some] at h
    cases hexit : exitStack k s pages with
    | error stop => simp [hexit] at h
    | ok k₁ =>
      simp only [hexit] at h
      cases h
      rw [(exitStack_iff.mp hexit).2]
      exact .exit hrun hpages
  | delete junk =>
    obtain ⟨⟨tid, s, sp⟩, hrun, -⟩ := (Option.any_eq_true _ _).mp hen
    simp only [next, hrun] at h
    cases h
    exact .delete hrun junk

end Nachos.VM

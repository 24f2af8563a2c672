import Nachos.Lib.Path
import Nachos.Lib.Placement
import Nachos.Threads.Synch

/-!
# Threads and synchronisation: conservation and exclusion

A thread that was forked and has not finished is at exactly one place: the CPU, the ready
list, or the queue of one object (`Kernel.threadsAt`). Every operation is made of moves from
the front of one queue to the end of another, so this is kept.

A thread that sleeps in `Acquire` is in the queue of the lock until `Release` makes it the
owner, before it runs (`Synched.acquires`). So it owns the lock when its `Acquire` ends, and
it stays the owner until it releases it (`Synched.inside`).
-/

namespace Nachos.Threads

open Lib (Placed push pop Reachable)

/-! ## Places -/

/-- Where a thread can be. -/
inductive Place where
  | cpu
  | ready
  | semaphore (s : Nat)
  | lock (l : Nat)
  | condition (c : Nat)
  deriving DecidableEq, Repr

/-- The status of the threads there. -/
def Place.status : Place → ThreadStatus
  | .cpu => .RUNNING
  | .ready => .READY
  | .semaphore _ | .lock _ | .condition _ => .BLOCKED

/-- The threads at a place, in order. -/
def Kernel.threadsAt (k : Kernel) : Place → List ThreadId
  | .cpu => if k.idle then [] else [k.currentThread]
  | .ready => k.readyList
  | .semaphore s => (k.semaphores s).queue
  | .lock l => (k.locks l).queue
  | .condition c => (k.conditions c).queue

section ThreadsAt

variable (k : Kernel)

@[simp] theorem threadsAt_goTo (pc : PC) : (k.goTo pc).threadsAt = k.threadsAt := by
  funext p
  cases p <;> rfl

@[simp] theorem threadsAt_setInside (l : Nat) (b : Bool) :
    (k.setInside l b).threadsAt = k.threadsAt := by
  funext p
  cases p <;> rfl

@[simp] theorem threadsAt_setSemaphore (s : Nat) (a : Semaphore) :
    (k.setSemaphore s a).threadsAt = Function.update k.threadsAt (.semaphore s) a.queue := by
  funext p
  cases p with
  | semaphore s' =>
    by_cases hs : s' = s
    · subst hs
      simp [Kernel.threadsAt, Kernel.setSemaphore]
    · simp [Kernel.threadsAt, Kernel.setSemaphore, hs]
  | cpu | ready | lock | condition => rfl

@[simp] theorem threadsAt_setLock (l : Nat) (a : Lock) :
    (k.setLock l a).threadsAt = Function.update k.threadsAt (.lock l) a.queue := by
  funext p
  cases p with
  | lock l' =>
    by_cases hl : l' = l
    · subst hl
      simp [Kernel.threadsAt, Kernel.setLock]
    · simp [Kernel.threadsAt, Kernel.setLock, hl]
  | cpu | ready | semaphore | condition => rfl

@[simp] theorem threadsAt_setCondition (c : Nat) (a : Condition) :
    (k.setCondition c a).threadsAt = Function.update k.threadsAt (.condition c) a.queue := by
  funext p
  cases p with
  | condition c' =>
    by_cases hc : c' = c
    · subst hc
      simp [Kernel.threadsAt, Kernel.setCondition]
    · simp [Kernel.threadsAt, Kernel.setCondition, hc]
  | cpu | ready | semaphore | lock => rfl

@[simp] theorem threadsAt_ReadyToRun (t : ThreadId) :
    (k.ReadyToRun (some t)).threadsAt = push k.threadsAt .ready t := by
  funext p
  cases p <;> rfl

@[simp] theorem threadsAt_Run (t : ThreadId) :
    (k.Run t).threadsAt = Function.update k.threadsAt .cpu [t] := by
  funext p
  cases p <;> rfl

@[simp] theorem threadsAt_Sleep : k.Sleep.threadsAt = Function.update k.threadsAt .cpu [] := by
  funext p
  cases p <;> rfl

/-- The front of the ready list is taken off. -/
theorem threadsAt_readyList (rest : List ThreadId) :
    ({ k with readyList := rest } : Kernel).threadsAt =
      Function.update k.threadsAt .ready rest := by
  funext p
  cases p <;> rfl

end ThreadsAt

/-! ## What the operations do -/

namespace Kernel

variable {k : Kernel} {t : ThreadId} {rest : List ThreadId}

theorem V_nil {s : Nat} (hq : (k.semaphores s).queue = []) :
    k.V s = k.setSemaphore s { value := (k.semaphores s).value + 1, queue := [] } := by
  simp [V, hq]

theorem V_cons {s : Nat} (hq : (k.semaphores s).queue = t :: rest) :
    k.V s = (k.setSemaphore s
      { value := (k.semaphores s).value + 1, queue := rest }).ReadyToRun (some t) := by
  simp [V, hq]

@[simp] theorem setLock_self (k : Kernel) (l : Nat) (a : Lock) : (k.setLock l a).locks l = a :=
  Function.update_self _ _ _

theorem setLock_of_ne (k : Kernel) {l l' : Nat} (a : Lock) (hl : l' ≠ l) :
    (k.setLock l a).locks l' = k.locks l' :=
  Function.update_of_ne hl _ _

theorem Release_of_not_held {l : Nat} (hheld : ¬ k.isHeldByCurrentThread l) : k.Release l = k :=
  if_pos hheld

theorem Release_nil {l : Nat} (hheld : k.isHeldByCurrentThread l) (hq : (k.locks l).queue = []) :
    k.Release l = (k.setInside l false).setLock l { lockState := .FREE } := by
  simp [Release, hheld, hq]

/-- `Release` makes the first thread in the queue the owner. -/
theorem Release_cons {l : Nat} (hheld : k.isHeldByCurrentThread l)
    (hq : (k.locks l).queue = t :: rest) :
    k.Release l = ((k.setInside l false).setLock l
      { lockState := (k.locks l).lockState, lockOwner := some t, queue := rest }).ReadyToRun
        (some t) := by
  simp [Release, hheld, hq]

/-- A thread that gives up a lock and goes to sleep may do so in any order. -/
theorem Release_Sleep {l : Nat} {pc : PC} (hcur : k.currentThread ∉ (k.locks l).queue) :
    ((k.Release l).goTo pc).Sleep = ((k.goTo pc).Sleep).Release l := by
  by_cases hheld : k.isHeldByCurrentThread l
  swap
  · rw [Release_of_not_held hheld, Release_of_not_held (k := (k.goTo pc).Sleep) hheld]
  cases hq : (k.locks l).queue with
  | nil =>
    rw [Release_nil hheld hq, Release_nil (k := (k.goTo pc).Sleep) hheld hq]
    rfl
  | cons t rest =>
    rw [Release_cons hheld hq, Release_cons (k := (k.goTo pc).Sleep) hheld hq]
    -- the thread that gets the lock is another one
    have hne : t ≠ k.currentThread := by
      rintro rfl
      rw [hq] at hcur
      exact hcur List.mem_cons_self
    have hstatus : Function.update (Function.update k.status t .READY) k.currentThread .BLOCKED =
        Function.update (Function.update k.status k.currentThread .BLOCKED) t .READY :=
      Function.update_comm hne _ _ _
    simp only [ReadyToRun, goTo, Sleep, setLock, setInside, hstatus]

/-- `Signal` wakes the first thread in the queue. -/
theorem Signal_cons {c : Nat} {conditionLock : Option Nat}
    (hlock : (k.conditions c).waitingLock = conditionLock) (hsome : conditionLock ≠ none)
    (hq : (k.conditions c).queue = t :: rest) :
    k.Signal c conditionLock = (k.setCondition c
      { waitingLock := if rest = [] then none else conditionLock, queue := rest }).ReadyToRun
        (some t) := by
  simp [Signal, hlock, hsome, hq]

end Kernel

/-! ## The invariant -/

structure Lock.Ok (a : Lock) : Prop where
  free : a.lockState = .FREE ↔ a.lockOwner = none
  queue : a.lockState = .FREE → a.queue = []

def Condition.Ok (a : Condition) : Prop := a.waitingLock = none ↔ a.queue = []

/-- A thread that sleeps in `Acquire` is in the queue until it is the owner, and a thread
inside a lock is its owner. -/
structure Owned (k : Kernel) : Prop where
  ok : ∀ l, (k.locks l).Ok
  acquires : ∀ t l, k.live t = true → k.pc t = .Acquire l →
    t ∈ (k.locks l).queue ∨ (k.locks l).lockOwner = some t
  inside : ∀ t l, k.inside t l = true → (k.locks l).lockOwner = some t

structure Synched (k : Kernel) : Prop where
  placed : Placed Place.status k.threadsAt (fun t => k.live t = true) k.status
  owned : Owned k
  conditions : ∀ c, (k.conditions c).Ok
  crashed : k.crashed = false

theorem synched_init (main : ThreadId) (values : Nat → Int) : Synched (.init main values) where
  placed := by
    have hat : (Kernel.init main values).threadsAt =
        push (fun _ => []) .cpu main := by
      funext p
      cases p <;> rfl
    have hall := (Placed.empty Place.status fun _ : ThreadId => .JUST_CREATED).push (t := main)
      (fun h => h) .cpu
    rw [← hat] at hall
    have hlive : (fun t : ThreadId => False ∨ t = main) =
        fun t => (Kernel.init main values).live t = true := by
      funext t
      simp [Kernel.init]
    rw [hlive] at hall
    exact hall
  owned := ⟨fun _ => ⟨⟨fun _ => rfl, fun _ => rfl⟩, fun _ => rfl⟩, nofun, nofun⟩
  conditions _ := ⟨fun _ => rfl, fun _ => rfl⟩
  crashed := rfl

/-! ## Operations -/

namespace Owned

variable {k : Kernel}

theorem goTo (h : Owned k) {pc : PC} (hpc : ∀ l, pc = .Acquire l →
    k.currentThread ∈ (k.locks l).queue ∨ k.isHeldByCurrentThread l) : Owned (k.goTo pc) where
  ok := h.ok
  acquires t l ht hacquire := by
    by_cases hcur : t = k.currentThread
    · subst hcur
      have hself : (k.goTo pc).pc k.currentThread = pc := Function.update_self _ _ _
      exact hpc l (hself.symm.trans hacquire)
    · have hother : (k.goTo pc).pc t = k.pc t := Function.update_of_ne hcur _ _
      exact h.acquires t l ht (hother.symm.trans hacquire)
  inside := h.inside

/-- One lock is changed. -/
theorem setLock (h : Owned k) {l : Nat} {a : Lock} (hok : a.Ok)
    (hacquires : ∀ t, k.live t = true → k.pc t = .Acquire l → t ∈ a.queue ∨ a.lockOwner = some t)
    (hinside : ∀ t, k.inside t l = true → a.lockOwner = some t) : Owned (k.setLock l a) := by
  refine ⟨fun l' => ?_, fun t l' ht hacquire => ?_, fun t l' hin => ?_⟩
  all_goals by_cases hl : l' = l
  · rw [hl, Kernel.setLock_self]
    exact hok
  · rw [Kernel.setLock_of_ne _ _ hl]
    exact h.ok l'
  · subst hl
    rw [Kernel.setLock_self]
    exact hacquires t ht hacquire
  · rw [Kernel.setLock_of_ne _ _ hl]
    exact h.acquires t l' ht hacquire
  · subst hl
    rw [Kernel.setLock_self]
    exact hinside t hin
  · rw [Kernel.setLock_of_ne _ _ hl]
    exact h.inside t l' hin

/-- The current thread leaves a lock, or enters one it owns. -/
theorem setInside (h : Owned k) {l : Nat} {b : Bool}
    (hb : b = true → k.isHeldByCurrentThread l) : Owned (k.setInside l b) := by
  refine ⟨h.ok, h.acquires, fun t l' hinside => ?_⟩
  by_cases ht : t = k.currentThread
  · subst ht
    by_cases hl : l' = l
    · subst hl
      apply hb
      simpa [Kernel.setInside] using hinside
    · apply h.inside
      simpa [Kernel.setInside, hl] using hinside
  · apply h.inside
    simpa [Kernel.setInside, ht] using hinside

/-- **A lock is given up**: the thread that was inside is not any more, and the new owner is
taken from the queue. -/
theorem release (h : Owned k) {l : Nat} {a : Lock} (hheld : k.isHeldByCurrentThread l)
    (hpc : k.pc k.currentThread ≠ .Acquire l) (hok : a.Ok)
    (hqueue : ∀ t ∈ (k.locks l).queue, t ∈ a.queue ∨ a.lockOwner = some t) :
    Owned ((k.setInside l false).setLock l a) := by
  apply (h.setInside (b := false) (by simp)).setLock hok
  · intro t ht hacquire
    rcases h.acquires t l ht hacquire with hin | howner
    · exact hqueue t hin
    · cases hheld.symm.trans howner
      exact absurd hacquire hpc
  · intro t hin
    by_cases ht : t = k.currentThread
    · simp [Kernel.setInside, ht] at hin
    · have hwas : k.inside t l = true := by simpa [Kernel.setInside, ht] using hin
      cases hheld.symm.trans (h.inside t l hwas)
      exact absurd rfl ht

end Owned

section Operations

variable {k : Kernel} (h : Synched k)

include h

theorem Synched.goTo {pc : PC} (hpc : ∀ l, pc ≠ .Acquire l) : Synched (k.goTo pc) where
  placed := by
    rw [threadsAt_goTo]
    exact h.placed
  owned := h.owned.goTo fun l hl => absurd hl (hpc l)
  conditions := h.conditions
  crashed := h.crashed

/-- **`Acquire` ends** for the owner. -/
theorem Synched.acquired {l : Nat} (howner : k.isHeldByCurrentThread l) :
    Synched (k.acquired l) := by
  refine Synched.goTo (k := k.setInside l true)
    ⟨?_, h.owned.setInside fun _ => howner, h.conditions, h.crashed⟩ nofun
  rw [threadsAt_setInside]
  exact h.placed

/-- **The running thread goes to sleep** in the queue of an object. -/
theorem Synched.sleep (hidle : k.idle = false) {p : Place} (hp : p.status = .BLOCKED) {k' : Kernel}
    (hat : k'.threadsAt = Function.update k.threadsAt p (k.threadsAt p ++ [k.currentThread]))
    (hcur : k'.currentThread = k.currentThread) (hlive : k'.live = k.live)
    (hstatus : k'.status = k.status) :
    Placed Place.status k'.Sleep.threadsAt (fun t => k'.Sleep.live t = true) k'.Sleep.status := by
  have hcpu : k.threadsAt .cpu = [k.currentThread] := by
    simp [Kernel.threadsAt, hidle]
  have hne : p ≠ .cpu := by
    rintro rfl
    cases hp
  have hall := h.placed.move hcpu p
  have hq : push (pop k.threadsAt .cpu) p k.currentThread = k'.Sleep.threadsAt := by
    rw [threadsAt_Sleep, hat, Function.update_comm hne, push, pop, hcpu, Function.update_of_ne hne]
    rfl
  rw [hq, hp] at hall
  show Placed _ _ (fun t => k'.live t = true)
    (Function.update k'.status k'.currentThread .BLOCKED)
  rw [hlive, hstatus, hcur]
  exact hall

/-- **A sleeping thread becomes ready.** -/
theorem Synched.wake {p : Place} {t : ThreadId} {rest : List ThreadId} (hq : k.threadsAt p = t :: rest)
    {k' : Kernel} (hat : k'.threadsAt = Function.update k.threadsAt p rest)
    (hlive : k'.live = k.live) (hstatus : k'.status = k.status) :
    Placed Place.status (k'.ReadyToRun (some t)).threadsAt
      (fun u => (k'.ReadyToRun (some t)).live u = true) (k'.ReadyToRun (some t)).status := by
  have hall := h.placed.move hq .ready
  rw [threadsAt_ReadyToRun, hat]
  show Placed _ _ (fun u => k'.live u = true) (Function.update k'.status t .READY)
  rw [hlive, hstatus]
  rw [pop, hq] at hall
  exact hall

/-! ### `Semaphore` -/

theorem Synched.P (hidle : k.idle = false) (s : Nat) : Synched (k.P s) := by
  unfold Kernel.P
  by_cases hzero : (k.semaphores s).value = 0
  · rw [if_pos hzero]
    have howned : Owned (k.goTo (.P s)) := h.owned.goTo nofun
    refine ⟨h.sleep hidle (p := .semaphore s) rfl ?_ rfl rfl rfl,
      ⟨howned.ok, howned.acquires, howned.inside⟩, h.conditions, h.crashed⟩
    rw [threadsAt_goTo, threadsAt_setSemaphore]
    rfl
  · rw [if_neg hzero]
    refine Synched.goTo (k := k.setSemaphore s _)
      ⟨?_, ⟨h.owned.ok, h.owned.acquires, h.owned.inside⟩, h.conditions, h.crashed⟩
      nofun
    rw [threadsAt_setSemaphore]
    show Placed _ (Function.update k.threadsAt (.semaphore s) (k.threadsAt (.semaphore s))) _ _
    rw [Function.update_eq_self]
    exact h.placed

theorem Synched.V (s : Nat) : Synched (k.V s) := by
  cases hq : (k.semaphores s).queue with
  | nil =>
    have hat : k.threadsAt (.semaphore s) = [] := hq
    rw [Kernel.V_nil hq]
    refine ⟨?_, ⟨h.owned.ok, h.owned.acquires, h.owned.inside⟩, h.conditions, h.crashed⟩
    rw [threadsAt_setSemaphore]
    show Placed _ (Function.update k.threadsAt (.semaphore s) []) _ _
    rw [← hat, Function.update_eq_self]
    exact h.placed
  | cons t rest =>
    rw [Kernel.V_cons hq]
    refine ⟨h.wake (p := .semaphore s) hq ?_ rfl rfl,
      ⟨h.owned.ok, h.owned.acquires, h.owned.inside⟩, h.conditions, h.crashed⟩
    exact threadsAt_setSemaphore _ _ _

/-! ### `Lock` -/

theorem Synched.Acquire (hidle : k.idle = false) (l : Nat) : Synched (k.Acquire l) := by
  unfold Kernel.Acquire
  by_cases hheld : k.isHeldByCurrentThread l
  · rw [if_pos hheld]
    exact h.acquired hheld
  rw [if_neg hheld]
  by_cases hfree : (k.locks l).lockState = .FREE
  · rw [if_pos hfree]
    have hnone : (k.locks l).lockOwner = none := (h.owned.ok l).free.mp hfree
    have hempty : (k.locks l).queue = [] := (h.owned.ok l).queue hfree
    -- nobody waits for a free lock, and nobody is inside it
    apply Synched.acquired
    · refine ⟨?_, h.owned.setLock ⟨by simp, nofun⟩ ?_ ?_, h.conditions, h.crashed⟩
      · rw [threadsAt_setLock]
        show Placed _ (Function.update k.threadsAt (.lock l) (k.threadsAt (.lock l))) _ _
        rw [Function.update_eq_self]
        exact h.placed
      · intro t ht hacquire
        have hwas := h.owned.acquires t l ht hacquire
        simp [hempty, hnone] at hwas
      · intro t hinside
        cases hnone.symm.trans (h.owned.inside t l hinside)
    · rw [Kernel.isHeldByCurrentThread, Kernel.setLock_self]
      rfl
  · rw [if_neg hfree]
    have hqueued : Owned (k.setLock l { k.locks l with
        queue := (k.locks l).queue ++ [k.currentThread] }) := by
      apply h.owned.setLock
      · exact ⟨(h.owned.ok l).free, fun hf => absurd hf hfree⟩
      · intro t ht hacquire
        exact (h.owned.acquires t l ht hacquire).imp_left fun hin => List.mem_append_left _ hin
      · exact fun t hinside => h.owned.inside t l hinside
    have howned : Owned ((k.setLock l _).goTo (.Acquire l)) := hqueued.goTo fun l' hl => by
      cases hl
      rw [Kernel.setLock_self]
      exact .inl (List.mem_append_right _ (List.mem_singleton.mpr rfl))
    refine ⟨h.sleep hidle (p := .lock l) rfl ?_ rfl rfl rfl,
      ⟨howned.ok, howned.acquires, howned.inside⟩, h.conditions, h.crashed⟩
    rw [threadsAt_goTo, threadsAt_setLock]
    rfl

/-- `Release` is called by a thread that does not sleep in `Acquire`. -/
theorem Synched.Release {l : Nat} (hpc : k.pc k.currentThread ≠ .Acquire l) :
    Synched (k.Release l) := by
  by_cases hheld : k.isHeldByCurrentThread l
  swap
  · rw [Kernel.Release_of_not_held hheld]
    exact h
  have hbusy : (k.locks l).lockState ≠ .FREE := by
    intro hfree
    cases hheld.symm.trans ((h.owned.ok l).free.mp hfree)
  cases hq : (k.locks l).queue with
  | nil =>
    rw [Kernel.Release_nil hheld hq]
    have howned : Owned ((k.setInside l false).setLock l { lockState := .FREE }) := by
      apply h.owned.release hheld hpc
      · exact ⟨⟨fun _ => rfl, fun _ => rfl⟩, fun _ => rfl⟩
      · rw [hq]
        exact nofun
    refine ⟨?_, howned, h.conditions, h.crashed⟩
    have hat : k.threadsAt (.lock l) = [] := hq
    rw [threadsAt_setLock, threadsAt_setInside]
    show Placed _ (Function.update k.threadsAt (.lock l) []) _ _
    rw [← hat, Function.update_eq_self]
    exact h.placed
  | cons t rest =>
    rw [Kernel.Release_cons hheld hq]
    have howned : Owned ((k.setInside l false).setLock l
        { lockState := (k.locks l).lockState, lockOwner := some t, queue := rest }) := by
      apply h.owned.release hheld hpc
      · exact ⟨⟨fun hf => absurd hf hbusy, nofun⟩, fun hf => absurd hf hbusy⟩
      · rw [hq]
        intro u hu
        rcases List.mem_cons.mp hu with rfl | hu
        · exact .inr rfl
        · exact .inl hu
    refine ⟨h.wake (p := .lock l) hq ?_ rfl rfl, ⟨howned.ok, howned.acquires, howned.inside⟩,
      h.conditions, h.crashed⟩
    rw [threadsAt_setLock, threadsAt_setInside]

/-! ### `Condition` -/

omit h in
theorem Condition.Ok.set (h : ∀ c, (k.conditions c).Ok) {c : Nat} {a : Condition} (ha : a.Ok)
    (c' : Nat) : ((k.setCondition c a).conditions c').Ok := by
  by_cases hc : c' = c
  · subst hc
    have hself : (k.setCondition c' a).conditions c' = a := Function.update_self _ _ _
    rw [hself]
    exact ha
  · have hother : (k.setCondition c a).conditions c' = k.conditions c' :=
      Function.update_of_ne hc _ _
    rw [hother]
    exact h c'

/-- `Wait`, with the `Release` at the end. -/
theorem Synched.Wait_eq (hidle : k.idle = false) {c l : Nat}
    (hlock : (k.conditions c).waitingLock = none ∨ (k.conditions c).waitingLock = some l) :
    k.Wait c (some l) =
      (((k.setCondition c ⟨some l, (k.conditions c).queue ++ [k.currentThread]⟩).goTo
        (.Wait c l)).Sleep).Release l := by
  have hget : (k.conditions c).waitingLock.getD l = l := by
    rcases hlock with hlock | hlock <;> rw [hlock] <;> rfl
  have hwait : k.Wait c (some l) =
      (((k.setCondition c ⟨some l, (k.conditions c).queue ++ [k.currentThread]⟩).Release l).goTo
        (.Wait c l)).Sleep := by
    simp [Kernel.Wait, hget]
  rw [hwait]
  apply Kernel.Release_Sleep
  -- the running thread is in no queue
  intro hin
  have hcpu : k.currentThread ∈ k.threadsAt .cpu := by
    simp [Kernel.threadsAt, hidle]
  cases h.placed.unique _ .cpu (.lock l) hcpu hin

theorem Synched.Wait (hidle : k.idle = false) (c : Nat) (conditionLock : Option Nat) :
    Synched (k.Wait c conditionLock) := by
  cases conditionLock with
  | none => exact h
  | some l =>
    by_cases hlock : (k.conditions c).waitingLock = none ∨ (k.conditions c).waitingLock = some l
    · rw [h.Wait_eq hidle hlock]
      apply Synched.Release
      · have howned : Owned (k.goTo (.Wait c l)) := h.owned.goTo nofun
        refine ⟨h.sleep hidle (p := .condition c) rfl ?_ rfl rfl rfl,
          ⟨howned.ok, howned.acquires, howned.inside⟩, ?_, h.crashed⟩
        · rw [threadsAt_goTo, threadsAt_setCondition]
          rfl
        · exact Condition.Ok.set h.conditions (by simp [Condition.Ok])
      · have hpc : (k.goTo (.Wait c l)).pc k.currentThread = .Wait c l := Function.update_self _ _ _
        show (k.goTo (.Wait c l)).pc k.currentThread ≠ _
        rw [hpc]
        exact nofun
    · obtain ⟨l', hl'⟩ : ∃ l', (k.conditions c).waitingLock = some l' :=
        Option.ne_none_iff_exists'.mp fun hnone => hlock (.inl hnone)
      have hne : l ≠ l' := by
        rintro rfl
        exact hlock (.inr hl')
      have hkeep : k.Wait c (some l) = k := by
        simp [Kernel.Wait, hl', hne]
      rw [hkeep]
      exact h

/-- **`Signal` wakes a thread when there is a `waitingLock`**: the queue is not empty. -/
theorem Synched.Signal (c : Nat) (conditionLock : Option Nat) :
    Synched (k.Signal c conditionLock) := by
  by_cases hnone : (k.conditions c).waitingLock = none
  · have hkeep : k.Signal c conditionLock = k := if_pos hnone
    rw [hkeep]
    exact h
  by_cases hlock : (k.conditions c).waitingLock = conditionLock
  swap
  · have hkeep : k.Signal c conditionLock = k := by
      simp [Kernel.Signal, hlock]
    rw [hkeep]
    exact h
  cases hq : (k.conditions c).queue with
  | nil => exact absurd ((h.conditions c).mpr hq) hnone
  | cons t rest =>
    rw [Kernel.Signal_cons hlock (hlock ▸ hnone) hq]
    refine ⟨h.wake (p := .condition c) hq ?_ rfl rfl,
      ⟨h.owned.ok, h.owned.acquires, h.owned.inside⟩, ?_, h.crashed⟩
    · exact threadsAt_setCondition _ _ _
    · apply Condition.Ok.set h.conditions
      by_cases hrest : rest = []
      · simp [Condition.Ok, hrest]
      · simp [Condition.Ok, hrest, ← hlock, hnone]

theorem Synched.Broadcast (c : Nat) (conditionLock : Option Nat) :
    Synched (k.Broadcast c conditionLock) := by
  unfold Kernel.Broadcast
  by_cases hnone : (k.conditions c).waitingLock = none
  · rw [if_pos hnone]
    exact h
  · rw [if_neg hnone]
    exact h.goTo nofun

/-! ### `Thread` -/

theorem Synched.dispatch {k' : Kernel} (hidle : k.idle = true) (hnext : k.dispatch = some k') :
    Synched k' := by
  unfold Kernel.dispatch at hnext
  cases hready : k.readyList with
  | nil => simp [hready] at hnext
  | cons t rest =>
    rw [hready] at hnext
    cases hnext
    refine ⟨?_, ⟨h.owned.ok, h.owned.acquires, h.owned.inside⟩, h.conditions, h.crashed⟩
    have hall := h.placed.move (p := .ready) hready .cpu
    have hq : push (pop k.threadsAt .ready) .cpu t =
        (Kernel.Run { k with readyList := rest } t).threadsAt := by
      rw [threadsAt_Run, threadsAt_readyList k rest]
      have hcpu : k.threadsAt .cpu = [] := by
        simp [Kernel.threadsAt, hidle]
      have hat : k.threadsAt .ready = t :: rest := hready
      rw [push, pop, hat, Function.update_of_ne (by simp), hcpu]
      rfl
    rw [hq] at hall
    exact hall

theorem Synched.Yield (hidle : k.idle = false) : Synched k.Yield := by
  cases hready : k.readyList with
  | nil =>
    have hkeep : k.Yield = k := by
      simp [Kernel.Yield, hready]
    rw [hkeep]
    exact h
  | cons t rest =>
    have hyield : k.Yield = Kernel.Run
        (Kernel.ReadyToRun { k with readyList := rest } (some k.currentThread)) t := by
      simp [Kernel.Yield, hready]
    rw [hyield]
    refine ⟨?_, ⟨h.owned.ok, h.owned.acquires, h.owned.inside⟩, h.conditions, h.crashed⟩
    have hcpu : k.threadsAt .cpu = [k.currentThread] := by
      simp [Kernel.threadsAt, hidle]
    have hat : k.threadsAt .ready = t :: rest := hready
    -- the thread goes to the end of the ready list, and the first one there to the CPU
    have hfirst := h.placed.move hcpu .ready
    have hnew : push (pop k.threadsAt .cpu) .ready k.currentThread .ready =
        t :: (rest ++ [k.currentThread]) := by
      rw [push, Function.update_self, pop, Function.update_of_ne (by simp), hat, List.cons_append]
    have hall := hfirst.move hnew .cpu
    have hq : push (pop (push (pop k.threadsAt .cpu) .ready k.currentThread) .ready) .cpu t =
        (Kernel.Run (Kernel.ReadyToRun { k with readyList := rest }
          (some k.currentThread)) t).threadsAt := by
      funext p
      cases p <;> simp [push, pop, Kernel.threadsAt, Kernel.Run, Kernel.ReadyToRun, hready, hidle]
    rw [hq] at hall
    exact hall

theorem Synched.Fork {t : ThreadId} (hnew : k.live t = false) : Synched (k.Fork t) := by
  have hlive : (fun u => k.live u = true ∨ u = t) =
      fun u => Function.update k.live t true u = true := by
    funext u
    by_cases hu : u = t <;> simp [hu]
  have hat : ({ k with
      pc := Function.update k.pc t .user
      live := Function.update k.live t true } : Kernel).threadsAt = k.threadsAt := by
    funext p
    cases p <;> rfl
  refine ⟨?_, ⟨h.owned.ok, fun u l hu hacquire => ?_, h.owned.inside⟩, h.conditions, h.crashed⟩
  · have hall := h.placed.push (t := t) (by simp [hnew]) .ready
    rw [hlive, ← hat, ← threadsAt_ReadyToRun] at hall
    exact hall
  · by_cases hut : u = t
    · subst hut
      have hself : (k.Fork u).pc u = .user := Function.update_self _ _ _
      cases hself.symm.trans hacquire
    · have hpc : (k.Fork t).pc u = k.pc u := Function.update_of_ne hut _ _
      have hlive : (k.Fork t).live u = k.live u := Function.update_of_ne hut _ _
      exact h.owned.acquires u l (hlive.symm.trans hu) (hpc.symm.trans hacquire)

theorem Synched.Finish (hidle : k.idle = false) : Synched k.Finish := by
  have hcpu : k.threadsAt .cpu = [k.currentThread] := by
    simp [Kernel.threadsAt, hidle]
  have hlive : (fun u => k.live u = true ∧ u ≠ k.currentThread) =
      fun u => Function.update k.live k.currentThread false u = true := by
    funext u
    by_cases hu : u = k.currentThread <;> simp [hu]
  refine ⟨?_, ⟨h.owned.ok, fun t l ht hacquire => ?_, fun t l hinside => ?_⟩, h.conditions,
    h.crashed⟩
  · have hall := (h.placed.pop hcpu).setStatus (t := k.currentThread) (by simp) .BLOCKED
    have hq : pop k.threadsAt .cpu = k.Finish.threadsAt := by
      rw [Kernel.Finish, threadsAt_Sleep, pop, hcpu]
      congr 1
    rw [hlive, hq] at hall
    exact hall
  · by_cases hcur : t = k.currentThread
    · subst hcur
      have hself : k.Finish.live k.currentThread = false := Function.update_self _ _ _
      cases hself.symm.trans ht
    · have hother : k.Finish.live t = k.live t := Function.update_of_ne hcur _ _
      exact h.owned.acquires t l (hother.symm.trans ht) hacquire
  · by_cases hcur : t = k.currentThread
    · subst hcur
      have hself : k.Finish.inside k.currentThread = fun _ => false := Function.update_self _ _ _
      cases (congrFun hself l).symm.trans hinside
    · have hother : k.Finish.inside t = k.inside t := Function.update_of_ne hcur _ _
      exact h.owned.inside t l ((congrFun hother l).symm.trans hinside)

end Operations

/-! ## Over a run -/

/-- **Every call keeps the invariant.** -/
theorem Synched.call {k : Kernel} (h : Synched k) (hidle : k.idle = false)
    (hpc : k.pc k.currentThread = .user) {c : Call} (hallowed : c.allowed k = true) :
    Synched (k.call c) := by
  cases c with
  | P s => exact h.P hidle s
  | V s => exact h.V s
  | Acquire l => exact h.Acquire hidle l
  | Release l => exact h.Release (by rw [hpc]; exact nofun)
  | Wait c conditionLock => exact h.Wait hidle c conditionLock
  | Signal c conditionLock => exact h.Signal c conditionLock
  | Broadcast c conditionLock => exact h.Broadcast c conditionLock
  | Yield => exact h.Yield hidle
  | Fork t => exact h.Fork (by simpa [Call.allowed] using hallowed)
  | Finish => exact h.Finish hidle

/-- A thread that goes on after its `Sleep` in `Acquire` is the owner. -/
theorem Synched.held_of_acquire {k : Kernel} (h : Synched k) (hidle : k.idle = false)
    {l : Nat} (hpc : k.pc k.currentThread = .Acquire l) : k.isHeldByCurrentThread l := by
  have hcpu : k.currentThread ∈ k.threadsAt .cpu := by
    simp [Kernel.threadsAt, hidle]
  have hlive : k.live k.currentThread = true := (h.placed.mem _).mpr ⟨.cpu, hcpu⟩
  rcases h.owned.acquires _ l hlive hpc with hin | howner
  · -- it runs, so it is not in the queue
    cases h.placed.unique _ .cpu (.lock l) hcpu hin
  · exact howner

theorem Synched.resume {k : Kernel} (h : Synched k) (hidle : k.idle = false) :
    Synched (k.resume (k.pc k.currentThread)) := by
  cases hpc : k.pc k.currentThread with
  | user => exact h
  | P s => exact h.P hidle s
  | Acquire l => exact h.acquired (h.held_of_acquire hidle hpc)
  | Wait c l => exact h.Acquire hidle l
  | Broadcast c conditionLock =>
    show Synched (if (k.conditions c).queue = [] then _ else _)
    split
    · exact h.goTo nofun
    · exact h.goTo nofun
  | Signal c conditionLock => exact (h.Signal c conditionLock).goTo nofun

theorem synched_step {k k' : Kernel} {op : Op} (h : Synched k) (hstep : KernelStep k op k') :
    Synched k' := by
  unfold KernelStep Kernel.next at hstep
  cases op with
  | call c =>
    obtain ⟨⟨hidle, hpc, hallowed⟩, rfl⟩ := by simpa using hstep
    exact h.call hidle hpc hallowed
  | resume =>
    obtain ⟨⟨hidle, -⟩, rfl⟩ := by simpa using hstep
    exact h.resume hidle
  | dispatch =>
    obtain ⟨hidle, hnext⟩ := by simpa using hstep
    exact h.dispatch hidle hnext
  | interrupt s =>
    obtain ⟨-, rfl⟩ := by simpa using hstep
    exact h.V s
  | timer =>
    obtain ⟨⟨hidle, -⟩, rfl⟩ := by simpa using hstep
    exact h.Yield hidle

/-- The step ends an `Acquire` of the lock, or a `Wait` that has slept. -/
def Returns (k : Kernel) (op : Op) (l : Nat) (k' : Kernel) : Prop :=
  (op = .call (.Acquire l) ∨ op = .resume ∧
    (k.pc k.currentThread = .Acquire l ∨ ∃ c, k.pc k.currentThread = .Wait c l)) ∧
  k'.pc k.currentThread = .user

theorem inside_acquired (k : Kernel) (l : Nat) :
    (k.acquired l).inside k.currentThread l = true := by
  simp [Kernel.acquired, Kernel.goTo, Kernel.setInside]

/-- When `Acquire` does not sleep, its thread is inside. -/
theorem inside_Acquire {k : Kernel} {l : Nat} (hpc : (k.Acquire l).pc k.currentThread = .user) :
    (k.Acquire l).inside k.currentThread l = true := by
  unfold Kernel.Acquire at hpc ⊢
  by_cases hheld : k.isHeldByCurrentThread l
  · rw [if_pos hheld]
    exact inside_acquired k l
  rw [if_neg hheld] at hpc ⊢
  by_cases hfree : (k.locks l).lockState = .FREE
  · rw [if_pos hfree]
    exact inside_acquired (k.setLock l _) l
  · rw [if_neg hfree] at hpc
    have hsleeps : PC.Acquire l = .user := by
      rw [← hpc]
      exact (Function.update_self k.currentThread (PC.Acquire l) k.pc).symm
    cases hsleeps

/-- **A thread that returns is inside.** -/
theorem inside_of_returns {k k' : Kernel} {op : Op} {l : Nat} (hstep : KernelStep k op k')
    (hreturns : Returns k op l k') : k'.inside k.currentThread l = true := by
  obtain ⟨hop, hpc⟩ := hreturns
  unfold KernelStep Kernel.next at hstep
  rcases hop with rfl | ⟨rfl, hwas | ⟨c, hwas⟩⟩
  · obtain ⟨-, rfl⟩ := by simpa using hstep
    exact inside_Acquire hpc
  · obtain ⟨-, rfl⟩ := by simpa using hstep
    rw [hwas]
    exact inside_acquired k l
  · obtain ⟨-, rfl⟩ := by simpa using hstep
    rw [hwas] at hpc ⊢
    exact inside_Acquire hpc

/-- **Threads are conserved and locks exclude**, in every run of the kernel. -/
theorem threads_conserved_and_excluded {main : ThreadId} {values : Nat → Int} {k : Kernel}
    (h : Reachable KernelStep (.init main values) k) :
    (∀ t, k.live t = true → ∃ p, ∀ p', (k.threadsAt p').count t = if p' = p then 1 else 0) ∧
    (∀ l, ((k.locks l).lockState = .FREE ↔ (k.locks l).lockOwner = none) ∧
      ((k.locks l).lockState = .FREE → (k.locks l).queue = [])) ∧
    (∀ c, (k.conditions c).waitingLock = none ↔ (k.conditions c).queue = []) ∧
    k.crashed = false ∧
    (∀ op l k', KernelStep k op k' → Returns k op l k' →
      k'.inside k.currentThread l = true ∧ (k'.locks l).lockOwner = some k.currentThread) ∧
    (∀ t t' l, k.inside t l = true → k.inside t' l = true → t = t') := by
  have hall : Synched k := h.invariant (synched_init main values) fun _ _ _ => synched_step
  refine ⟨fun t ht => hall.placed.count ht, fun l => ⟨(hall.owned.ok l).free, (hall.owned.ok l).queue⟩,
    hall.conditions, hall.crashed, fun op l k' hstep hreturns => ?_, fun t t' l ht ht' => ?_⟩
  · have hinside := inside_of_returns hstep hreturns
    exact ⟨hinside, (synched_step hall hstep).owned.inside _ l hinside⟩
  · have howner := hall.owned.inside t l ht
    have howner' := hall.owned.inside t' l ht'
    exact Option.some.inj (howner.symm.trans howner')

/-- Thread 1 asks for lock 0 while the main thread has it, and gets it when the main thread
waits. -/
def handOver : List Op :=
  [.call (.Fork 1), .call (.Acquire 0), .call .Yield, .call (.Acquire 0), .dispatch,
    .call (.Wait 5 (some 0)), .dispatch]

theorem threads_conserved_and_excluded_handOver : ∃ k k' : Kernel,
    KernelStep k .resume k' ∧ k.currentThread = 1 ∧ (k.conditions 5).queue = [0] ∧
      (k'.locks 0).lockOwner = some 1 := by
  have hrun : (Lib.execute Kernel.next (.init 0 fun _ => 0) handOver).any (fun k =>
      decide (k.currentThread = 1 ∧ (k.conditions 5).queue = [0] ∧ k.pc 1 = .Acquire 0) &&
        (k.next .resume).any fun k' => decide (k'.pc 1 = .user)) = true := by
    decide +kernel
  obtain ⟨k, hk, hdec⟩ := (Option.any_eq_true _ _).mp hrun
  obtain ⟨hbefore, hafter⟩ := Bool.and_eq_true_iff.mp hdec
  obtain ⟨hcur, hqueue, hpc⟩ := of_decide_eq_true hbefore
  obtain ⟨k', hstep, hdec'⟩ := (Option.any_eq_true _ _).mp hafter
  have hreach : Reachable KernelStep (.init 0 fun _ => 0) k :=
    ⟨_, Lib.path_of_execute (fun _ _ _ => id) hk⟩
  have hreturns : Returns k .resume 0 k' :=
    ⟨.inr ⟨rfl, .inl (hcur ▸ hpc)⟩, hcur ▸ of_decide_eq_true hdec'⟩
  have howner := ((threads_conserved_and_excluded hreach).2.2.2.2.1 .resume 0 k' hstep hreturns).2
  exact ⟨k, k', hstep, hcur, hqueue, hcur ▸ howner⟩

end Nachos.Threads

import Nachos.Threads.Broadcast
import Nachos.Threads.Syscalls

/-!
# Deletion of locks and conditions

A lock is deleted when it is not busy, so nobody owns it and nobody is queued on it. But a
thread inside `Condition::Wait` has given the lock up, and is in no queue of it until it runs
again. So the lock can be deleted under it. It is not when no step makes the lock free, or
destroys the free lock, while a thread is inside `Wait` with it (`KeepsWaiters`).
-/

namespace Nachos.Threads

open Lib (Reachable Restrict)

/-! ## What the kernel does to the objects -/

/-- The objects from number `N` on stay as they are, no lock becomes free, and nobody starts
to wait; a lock given in `touched` is excepted. -/
structure Frame (N : Nat) (touched : Option Nat) (k k' : Kernel) : Prop where
  locks : ∀ l, N ≤ l → k'.locks l = k.locks l
  conditions : ∀ c, N ≤ c → k'.conditions c = k.conditions c
  free : ∀ l, touched ≠ some l → (k'.locks l).lockState = .FREE → (k.locks l).lockState = .FREE
  waits : ∀ t c l, touched ≠ some l → k'.pc t = .Wait c l → k.pc t = .Wait c l

namespace Frame

variable {N : Nat} {touched : Option Nat} {k k₁ k₂ : Kernel}

theorem refl (N : Nat) (touched : Option Nat) (k : Kernel) : Frame N touched k k :=
  ⟨fun _ _ => rfl, fun _ _ => rfl, fun _ _ h => h, fun _ _ _ _ h => h⟩

theorem trans (h₁ : Frame N touched k k₁) (h₂ : Frame N touched k₁ k₂) :
    Frame N touched k k₂ where
  locks l hl := (h₂.locks l hl).trans (h₁.locks l hl)
  conditions c hc := (h₂.conditions c hc).trans (h₁.conditions c hc)
  free l hl hfree := h₁.free l hl (h₂.free l hl hfree)
  waits t c l hl hpc := h₁.waits t c l hl (h₂.waits t c l hl hpc)

/-- Objects and program counters stay. -/
theorem of_eq (hlocks : k₁.locks = k.locks) (hconditions : k₁.conditions = k.conditions)
    (hpc : k₁.pc = k.pc) : Frame N touched k k₁ where
  locks l _ := congrFun hlocks l
  conditions c _ := congrFun hconditions c
  free l _ hfree := by rwa [hlocks] at hfree
  waits t c l _ hwaits := by rwa [hpc] at hwaits

/-- One thread goes on at `pc`, and the objects stay. -/
theorem of_pc {t : ThreadId} (pc : PC) (hlocks : k₁.locks = k.locks)
    (hconditions : k₁.conditions = k.conditions) (hpc : k₁.pc = Function.update k.pc t pc)
    (hwait : ∀ c l, touched ≠ some l → pc ≠ .Wait c l) : Frame N touched k k₁ where
  locks l _ := congrFun hlocks l
  conditions c _ := congrFun hconditions c
  free l _ hfree := by rwa [hlocks] at hfree
  waits u c l hl hwaits := by
    rw [hpc] at hwaits
    by_cases hu : u = t
    · rw [hu, Function.update_self] at hwaits
      exact absurd hwaits (hwait c l hl)
    · rwa [Function.update_of_ne hu] at hwaits

theorem goTo {pc : PC} (hwait : ∀ c l, touched ≠ some l → pc ≠ .Wait c l) :
    Frame N touched k (k.goTo pc) :=
  of_pc _ rfl rfl rfl hwait

/-- A lock is set that the frame excepts, or that does not become free. -/
theorem setLock {l : Nat} {a : Lock} (hl : l < N)
    (hfree : touched ≠ some l → a.lockState = .FREE → (k.locks l).lockState = .FREE) :
    Frame N touched k (k.setLock l a) where
  locks l' hl' := k.setLock_of_ne a (by omega)
  conditions _ _ := rfl
  free l' hl' hfree' := by
    by_cases heq : l' = l
    · subst heq
      rw [Kernel.setLock_self] at hfree'
      exact hfree hl' hfree'
    · rwa [Kernel.setLock_of_ne _ _ heq] at hfree'
  waits _ _ _ _ h := h

theorem setCondition {c : Nat} (a : Condition) (hc : c < N) :
    Frame N touched k (k.setCondition c a) where
  locks _ _ := rfl
  conditions c' hc' := k.setCondition_other a (by omega)
  free _ _ h := h
  waits _ _ _ _ h := h

theorem P (s : Nat) : Frame N touched k (k.P s) := by
  unfold Kernel.P
  dsimp only
  split
  · exact of_pc (.P s) rfl rfl rfl fun _ _ _ => nofun
  · exact of_pc .user rfl rfl rfl fun _ _ _ => nofun

theorem V (s : Nat) : Frame N touched k (k.V s) := by
  unfold Kernel.V
  dsimp only
  split
  · exact of_eq rfl rfl rfl
  · exact of_eq rfl rfl rfl

theorem Yield : Frame N touched k k.Yield := by
  unfold Kernel.Yield
  split
  · exact refl N touched k
  · exact of_eq rfl rfl rfl

theorem Fork (t : ThreadId) : Frame N touched k (k.Fork t) :=
  of_pc .user rfl rfl rfl fun _ _ _ => nofun

theorem dispatch (hnext : k.dispatch = some k₁) : Frame N touched k k₁ := by
  unfold Kernel.dispatch at hnext
  split at hnext
  · cases hnext
  · cases hnext
    exact of_eq rfl rfl rfl

theorem acquired (l : Nat) : Frame N touched k (k.acquired l) :=
  of_pc .user rfl rfl rfl fun _ _ _ => nofun

theorem Acquire {l : Nat} (hl : l < N) : Frame N touched k (k.Acquire l) := by
  unfold Kernel.Acquire
  dsimp only
  split
  · exact acquired l
  · split
    · rename_i hfree
      exact (setLock hl fun _ _ => hfree).trans (acquired l)
    · -- the lock is busy, and the thread is queued on it
      refine (setLock (a := { k.locks l with queue := (k.locks l).queue ++ [k.currentThread] }) hl
        fun _ hfree => hfree).trans ?_
      exact of_pc (.Acquire l) rfl rfl rfl fun _ _ _ => nofun

/-- Only the lock that is released can become free. -/
theorem Release {l : Nat} (hl : l < N) : Frame N (some l) k (k.Release l) := by
  have hset : ∀ a, Frame N (some l) k (k.setLock l a) := fun a =>
    setLock hl fun hne => absurd rfl hne
  by_cases hheld : k.isHeldByCurrentThread l
  · cases hq : (k.locks l).queue with
    | nil =>
      rw [Kernel.Release_nil hheld hq]
      exact (hset _).trans (of_eq rfl rfl rfl)
    | cons t rest =>
      rw [Kernel.Release_cons hheld hq]
      exact (hset _).trans (of_eq rfl rfl rfl)
  · rw [Kernel.Release_of_not_held hheld]
    exact refl N (some l) k

theorem Wait {c l : Nat} (hc : c < N) (hl : l < N) : Frame N (some l) k (k.Wait c (some l)) := by
  unfold Kernel.Wait
  dsimp only
  split
  · exact refl N (some l) k
  · rename_i heq
    rw [← not_not.mp heq]
    apply ((setCondition ⟨some l, (k.conditions c).queue ++ [k.currentThread]⟩ hc).trans
      (Release hl)).trans
    refine of_pc (.Wait c l) rfl rfl rfl ?_
    intro c' l' hl' heq
    cases heq
    exact hl' rfl

theorem Signal {c : Nat} (conditionLock : Option Nat) (hc : c < N) :
    Frame N touched k (k.Signal c conditionLock) := by
  unfold Kernel.Signal
  dsimp only
  split
  · exact refl N touched k
  · split
    · exact refl N touched k
    · cases (k.conditions c).queue.head? with
      | none => exact (setCondition ⟨_, _⟩ hc).trans (of_eq rfl rfl rfl)
      | some t => exact (setCondition ⟨_, _⟩ hc).trans (of_eq rfl rfl rfl)

theorem Broadcast (c : Nat) (conditionLock : Option Nat) :
    Frame N touched k (k.Broadcast c conditionLock) := by
  unfold Kernel.Broadcast
  split
  · exact refl N touched k
  · exact goTo fun _ _ _ => nofun

end Frame

/-! ## The condition on the steps -/

namespace Kernel

variable (k : Kernel)

/-- A thread is inside `Condition::Wait` with the lock: it is queued on a condition, or was
woken and has not run since. -/
def Waited (lock : Nat) : Prop := ∃ t condition, k.pc t = .Wait condition lock

/-- The lock is busy, and stays so if the running thread gives it up. -/
def StaysBusy (lock : Nat) : Prop :=
  (k.locks lock).lockState = .BUSY ∧
    (k.isHeldByCurrentThread lock → (k.locks lock).queue ≠ [])

variable {k}

/-- `Release` frees the lock of a thread that holds it and nobody is queued on. -/
theorem free_Release {l : Nat} (hfree : ((k.Release l).locks l).lockState = .FREE) :
    (k.locks l).lockState = .FREE ∨ k.isHeldByCurrentThread l ∧ (k.locks l).queue = [] := by
  by_cases hheld : k.isHeldByCurrentThread l
  · cases hq : (k.locks l).queue with
    | nil => exact .inr ⟨hheld, rfl⟩
    | cons t rest =>
      rw [Release_cons hheld hq] at hfree
      have hself := (k.setInside l false).setLock_self l
        { lockState := (k.locks l).lockState, lockOwner := some t, queue := rest }
      exact .inl ((congrArg Lock.lockState hself).symm.trans hfree)
  · rw [Release_of_not_held hheld] at hfree
    exact .inl hfree

/-- A lock that stays busy is not freed. -/
theorem not_free_Release {l : Nat} (hbusy : k.StaysBusy l) :
    ((k.Release l).locks l).lockState ≠ .FREE := by
  intro hfree
  rcases free_Release hfree with hwas | ⟨hheld, hempty⟩
  · rw [hbusy.1] at hwas
    cases hwas
  · exact hbusy.2 hheld hempty

/-- A thread that starts to wait gives the lock up. -/
theorem locks_Wait {c l : Nat} (hwait : (k.conditions c).waitingLock.getD l = l) :
    (k.Wait c (some l)).locks = (k.Release l).locks := by
  have hrelease : ∀ a, ((k.setCondition c a).Release l).locks = (k.Release l).locks := by
    intro a
    by_cases hheld : k.isHeldByCurrentThread l
    · cases hq : (k.locks l).queue with
      | nil =>
        rw [Release_nil hheld hq, Release_nil (k := k.setCondition c a) hheld hq]
        rfl
      | cons t rest =>
        rw [Release_cons hheld hq, Release_cons (k := k.setCondition c a) hheld hq]
        rfl
    · rw [Release_of_not_held hheld,
        Release_of_not_held (k := k.setCondition c a) hheld]
      rfl
  unfold Wait
  dsimp only
  rw [if_neg (by simp [hwait]), hwait]
  exact hrelease _

variable (k) in
theorem pc_Release (l : Nat) : (k.Release l).pc = k.pc := by
  by_cases hheld : k.isHeldByCurrentThread l
  · cases hq : (k.locks l).queue with
    | nil => rw [Release_nil hheld hq]; rfl
    | cons t rest => rw [Release_cons hheld hq]; rfl
  · rw [Release_of_not_held hheld]

end Kernel

/-- The lock of the entry has been marked for deletion. -/
def Tables.Marked (s : Tables) (le : Nat) : Prop :=
  ∃ a, s.lockEntries le = some a ∧ a.isToBeDeleted = true

/-- No step makes a marked lock free, or destroys a free lock, while a thread is inside `Wait`
with it. -/
def KeepsWaiters (s : Tables) : TablesOp → Prop
  | .syscall (.DestroyLock lock) => ∀ le, s.Lock_Syscall_InputValidation lock = some le →
      (s.kernel.locks le).lockState = .BUSY ∨ ¬ s.kernel.Waited le
  | .syscall (.Release lock) => ∀ le, s.Lock_Syscall_InputValidation lock = some le →
      s.Marked le → s.kernel.StaysBusy le ∨ ¬ s.kernel.Waited le
  | .syscall (.Wait condition lock) => ∀ ce le,
      s.Condition_Syscall_InputValidation condition lock = some (ce, le) → s.Marked le →
      StartsWait ce s.kernel (.call (.Wait ce (some le))) → s.kernel.StaysBusy le
  | _ => True

/-! ## The invariant -/

/-- The objects that have not been created are as their constructors leave them, and nobody
is inside `Wait` with a lock that is marked and free. -/
structure TablesInv (s : Tables) : Prop where
  synched : Synched s.kernel
  lockEntries : ∀ le, (s.lockEntries le).isSome = true → le < s.objects
  conditionEntries : ∀ ce, (s.conditionEntries ce).isSome = true → ce < s.objects
  locks : ∀ l, s.objects ≤ l → s.kernel.locks l = {}
  conditions : ∀ c, s.objects ≤ c → s.kernel.conditions c = {}
  marked : ∀ le, s.Marked le → (s.kernel.locks le).lockState = .FREE → ¬ s.kernel.Waited le

theorem tablesInv_init (main : ThreadId) (values : Nat → Int) : TablesInv (.init main values) where
  synched := synched_init main values
  lockEntries := nofun
  conditionEntries := nofun
  locks _ _ := rfl
  conditions _ _ := rfl
  marked := by
    rintro le ⟨a, ha, -⟩
    cases ha

namespace TablesInv

variable {s s' : Tables}

/-- **The kernel takes a step** and the tables stay. -/
theorem kernelStep (h : TablesInv s) {kernel : Kernel} (touched : Option Nat)
    (hsync : Synched kernel) (hframe : Frame s.objects touched s.kernel kernel)
    (hmarked : ∀ le, touched = some le → s.Marked le →
      (kernel.locks le).lockState = .FREE → ¬ kernel.Waited le) :
    TablesInv { s with kernel := kernel } where
  synched := hsync
  lockEntries := h.lockEntries
  conditionEntries := h.conditionEntries
  locks l hl := (hframe.locks l hl).trans (h.locks l hl)
  conditions c hc := (hframe.conditions c hc).trans (h.conditions c hc)
  marked le hle hfree := by
    by_cases htouched : touched = some le
    · exact hmarked le htouched hle hfree
    · rintro ⟨t, c, hpc⟩
      exact h.marked le hle (hframe.free le htouched hfree) ⟨t, c, hframe.waits t c le htouched hpc⟩

theorem setChecking (h : TablesInv s) (check : Option Check) : TablesInv (s.setChecking check) :=
  ⟨h.synched, h.lockEntries, h.conditionEntries, h.locks, h.conditions, h.marked⟩

/-! ### Steps of the kernel -/

/-- A step that is no step of a handler frees no lock and starts no wait. -/
theorem frame (h : TablesInv s) {op : Op} {kernel : Kernel} (hpossible : s.possible op = true)
    (hstep : KernelStep s.kernel op kernel) : Frame s.objects none s.kernel kernel := by
  unfold KernelStep Kernel.next at hstep
  cases op with
  | call c =>
    obtain ⟨-, rfl⟩ := by simpa using hstep
    cases c with
    | P a => exact .P a
    | V a => exact .V a
    | Yield => exact .Yield
    | Fork t => exact .Fork t
    | Finish => exact .of_eq rfl rfl rfl
    | Acquire | Release | Wait | Signal | Broadcast =>
      -- those are called by the handlers
      simp [Tables.possible, Call.outside] at hpossible
  | resume =>
    obtain ⟨-, rfl⟩ := by simpa using hstep
    have halive : s.alive (s.kernel.pc s.kernel.currentThread) = true := hpossible
    cases hpc : s.kernel.pc s.kernel.currentThread with
    | user => exact .refl _ _ _
    | P a => exact .P a
    | Acquire l => exact .acquired l
    | Wait c l =>
      rw [hpc] at halive
      exact .Acquire (h.lockEntries l halive)
    | Broadcast c conditionLock =>
      show Frame _ _ _ (if (s.kernel.conditions c).queue = [] then _ else _)
      split
      · exact .goTo fun _ _ _ => nofun
      · exact .goTo fun _ _ _ => nofun
    | Signal c conditionLock =>
      rw [hpc] at halive
      exact (Frame.Signal conditionLock (h.conditionEntries c halive)).trans
        (.goTo fun _ _ _ => nofun)
  | dispatch =>
    obtain ⟨-, hnext⟩ := by simpa using hstep
    exact .dispatch hnext
  | interrupt a =>
    obtain ⟨-, rfl⟩ := by simpa using hstep
    exact .V a
  | timer =>
    obtain ⟨-, rfl⟩ := by simpa using hstep
    exact .Yield

theorem kernel (h : TablesInv s) {op : Op} (hstep : TablesStep s (.kernel op) s') :
    TablesInv s' := by
  unfold TablesStep Tables.next at hstep
  dsimp only at hstep
  split at hstep
  · rename_i hpossible
    obtain ⟨kernel, hkernel, rfl⟩ := Option.map_eq_some_iff.mp hstep
    exact h.kernelStep _ (synched_step h.synched hkernel) (h.frame hpossible hkernel) nofun
  · cases hstep

/-! ### Handlers for locks -/

/-- A handler for a lock that is valid. -/
theorem withLock_cases {lock : Int} {f : Nat → LockTableEntry → Tables}
    (hstep : s.withLock lock f = some s') :
    s' = s ∨ ∃ le a, s.Lock_Syscall_InputValidation lock = some le ∧
      s.lockEntries le = some a ∧ s' = f le a := by
  unfold Tables.withLock at hstep
  cases hvalid : s.Lock_Syscall_InputValidation lock with
  | none =>
    rw [hvalid] at hstep
    cases hstep
    exact .inl rfl
  | some le =>
    rw [hvalid] at hstep
    obtain ⟨a, ha, rfl⟩ := Option.map_eq_some_iff.mp hstep
    exact .inr ⟨le, a, rfl, ha, rfl⟩

/-- The object with the next number is as its constructor leaves it. -/
theorem CreateLock (h : TablesInv s) : TablesInv s.CreateLock_Syscall := by
  unfold Tables.CreateLock_Syscall
  split
  · exact h
  · rename_i lockTableIndex bitMap hfind
    have hkeep : s.kernel.setLock s.objects {} = s.kernel := by
      have heq : Function.update s.kernel.locks s.objects {} = s.kernel.locks := by
        rw [← h.locks s.objects (Nat.le_refl _), Function.update_eq_self]
      simp only [Kernel.setLock, heq]
    rw [hkeep]
    refine ⟨h.synched, fun le hle => ?_, fun ce hce => Nat.lt_succ_of_lt (h.conditionEntries ce hce),
      fun l hl => h.locks l (Nat.le_of_succ_le hl),
      fun c hc => h.conditions c (Nat.le_of_succ_le hc), fun le hle => ?_⟩
    · show le < s.objects + 1
      by_cases heq : le = s.objects
      · omega
      · have hwas := h.lockEntries le (by simpa [heq] using hle)
        omega
    · obtain ⟨a, ha, hmark⟩ := hle
      by_cases heq : le = s.objects
      · -- the new entry is not marked
        subst heq
        have hnew : a = {} := by simpa using ha.symm
        rw [hnew] at hmark
        cases hmark
      · exact h.marked le ⟨a, by simpa [heq] using ha, hmark⟩

/-- An entry is deleted. -/
theorem deleteLock (h : TablesInv s) (lock le : Nat) : TablesInv (s.deleteLock lock le) := by
  refine ⟨h.synched, fun le' hle => ?_, h.conditionEntries, h.locks, h.conditions,
    fun le' hle => ?_⟩
  · by_cases heq : le' = le
    · simp [Tables.deleteLock, heq] at hle
    · exact h.lockEntries le' (by simpa [Tables.deleteLock, heq] using hle)
  · obtain ⟨a, ha, hmark⟩ := hle
    by_cases heq : le' = le
    · simp [Tables.deleteLock, heq] at ha
    · exact h.marked le' ⟨a, by simpa [Tables.deleteLock, heq] using ha, hmark⟩

theorem Acquire (h : TablesInv s) (hidle : s.kernel.idle = false) {lock : Int}
    (hstep : s.Acquire_Syscall lock = some s') : TablesInv s' := by
  rcases withLock_cases hstep with rfl | ⟨le, a, -, ha, rfl⟩
  · exact h
  · have hle := h.lockEntries le (by rw [ha]; rfl)
    exact h.kernelStep none (h.synched.Acquire hidle le) (.Acquire hle) nofun

/-- **`Release`**: a marked lock that becomes free has no waiter. -/
theorem Release (h : TablesInv s) (hpc : s.kernel.pc s.kernel.currentThread = .user) {lock : Int}
    (hkeeps : KeepsWaiters s (.syscall (.Release lock)))
    (hstep : s.Release_Syscall lock = some s') : TablesInv s' := by
  rcases withLock_cases hstep with rfl | ⟨le, a, hvalid, ha, rfl⟩
  · exact h
  · have hle := h.lockEntries le (by rw [ha]; rfl)
    apply (h.setChecking (some (.lock lock.toNat le))).kernelStep (some le)
    · apply h.synched.Release
      rw [hpc]
      exact nofun
    · exact .Release hle
    · intro l hl hmarked hfree
      cases hl
      unfold Kernel.Waited
      rw [Kernel.pc_Release]
      rcases hkeeps le hvalid hmarked with hbusy | hnone
      · exact absurd hfree (Kernel.not_free_Release hbusy)
      · exact hnone

/-- **`DestroyLock`** marks a busy lock. -/
theorem DestroyLock (h : TablesInv s) {lock : Int}
    (hstep : s.DestroyLock_Syscall lock = some s') : TablesInv s' := by
  rcases withLock_cases hstep with rfl | ⟨le, a, -, ha, rfl⟩
  · exact h
  by_cases hbusy : s.kernel.lockBusy le = true
  · rw [if_pos hbusy]
    refine ⟨h.synched, fun le' hle => ?_, h.conditionEntries, h.locks, h.conditions,
      fun le' hle => ?_⟩
    · by_cases heq : le' = le
      · exact h.lockEntries le' (by rw [heq, ha]; rfl)
      · exact h.lockEntries le' (by simpa [heq] using hle)
    · obtain ⟨a', ha', hmark⟩ := hle
      by_cases heq : le' = le
      · intro hfree
        have hstate : (s.kernel.locks le).lockState = .BUSY := of_decide_eq_true hbusy
        subst heq
        cases hstate.symm.trans hfree
      · exact h.marked le' ⟨a', by simpa [heq] using ha', hmark⟩
  · rw [if_neg hbusy]
    exact h.deleteLock _ _

/-! ### Handlers for conditions -/

/-- A handler for a condition and a lock that are valid. -/
theorem withCondition_cases {condition lock : Int} {f : Nat → Nat → Tables}
    (hstep : s.withCondition condition lock f = some s') :
    s' = s ∨ ∃ ce le, s.Condition_Syscall_InputValidation condition lock = some (ce, le) ∧
      (s.conditionEntries ce).isSome = true ∧ (s.lockEntries le).isSome = true ∧ s' = f ce le := by
  unfold Tables.withCondition at hstep
  cases hvalid : s.Condition_Syscall_InputValidation condition lock with
  | none =>
    rw [hvalid] at hstep
    cases hstep
    exact .inl rfl
  | some entries =>
    obtain ⟨ce, le⟩ := entries
    rw [hvalid] at hstep
    dsimp only at hstep
    split at hstep
    · rename_i hce hle
      cases hstep
      exact .inr ⟨ce, le, rfl, by rw [hce]; rfl, by rw [hle]; rfl, rfl⟩
    · cases hstep

theorem CreateCondition (h : TablesInv s) : TablesInv s.CreateCondition_Syscall := by
  unfold Tables.CreateCondition_Syscall
  split
  · exact h
  · rename_i conID bitMap hfind
    have hkeep : s.kernel.setCondition s.objects {} = s.kernel := by
      have heq : Function.update s.kernel.conditions s.objects {} = s.kernel.conditions := by
        rw [← h.conditions s.objects (Nat.le_refl _), Function.update_eq_self]
      simp only [Kernel.setCondition, heq]
    rw [hkeep]
    refine ⟨h.synched, fun le hle => Nat.lt_succ_of_lt (h.lockEntries le hle), fun ce hce => ?_,
      fun l hl => h.locks l (Nat.le_of_succ_le hl),
      fun c hc => h.conditions c (Nat.le_of_succ_le hc), h.marked⟩
    show ce < s.objects + 1
    by_cases heq : ce = s.objects
    · omega
    · have hwas := h.conditionEntries ce (by simpa [heq] using hce)
      omega

theorem deleteCondition (h : TablesInv s) (condition ce : Nat) :
    TablesInv (s.deleteCondition condition ce) := by
  refine ⟨h.synched, h.lockEntries, fun ce' hce => ?_, h.locks, h.conditions, h.marked⟩
  by_cases heq : ce' = ce
  · simp [Tables.deleteCondition, heq] at hce
  · exact h.conditionEntries ce' (by simpa [Tables.deleteCondition, heq] using hce)

/-- **`Wait`**: a thread that starts to wait with a marked lock does not free it. -/
theorem Wait (h : TablesInv s) (hidle : s.kernel.idle = false) {condition lock : Int}
    (hkeeps : KeepsWaiters s (.syscall (.Wait condition lock)))
    (hstep : s.Wait_Syscall condition lock = some s') : TablesInv s' := by
  rcases withCondition_cases hstep with rfl | ⟨ce, le, hvalid, hce, hle, rfl⟩
  · exact h
  · apply h.kernelStep (some le) (h.synched.Wait hidle ce (some le))
    · exact .Wait (h.conditionEntries ce hce) (h.lockEntries le hle)
    · intro l hl hmarked hfree
      cases hl
      by_cases hwait : (s.kernel.conditions ce).waitingLock.getD le = le
      · have hbusy := hkeeps ce le hvalid hmarked ⟨le, rfl, hwait⟩
        have hlocks := congrFun (Kernel.locks_Wait hwait) le
        rw [hlocks] at hfree
        exact absurd hfree (Kernel.not_free_Release hbusy)
      · -- another lock is the `waitingLock`: nothing is done
        have hkeep : s.kernel.Wait ce (some le) = s.kernel := by
          simp [Kernel.Wait, Ne.symm hwait]
        rw [hkeep] at hfree ⊢
        exact h.marked le hmarked hfree

theorem Signal (h : TablesInv s) {condition lock : Int}
    (hstep : s.Signal_Syscall condition lock = some s') : TablesInv s' := by
  rcases withCondition_cases hstep with rfl | ⟨ce, le, -, hce, -, rfl⟩
  · exact h
  · apply (h.setChecking (some (.condition condition.toNat ce))).kernelStep none
    · exact h.synched.Signal ce (some le)
    · exact .Signal (some le) (h.conditionEntries ce hce)
    · exact nofun

theorem Broadcast (h : TablesInv s) {condition lock : Int}
    (hstep : s.Broadcast_Syscall condition lock = some s') : TablesInv s' := by
  rcases withCondition_cases hstep with rfl | ⟨ce, le, -, -, -, rfl⟩
  · exact h
  · apply (h.setChecking (some (.condition condition.toNat ce))).kernelStep none
    · exact h.synched.Broadcast ce (some le)
    · exact .Broadcast ce (some le)
    · exact nofun

theorem DestroyCondition_cases {condition : Int}
    (hstep : s.DestroyCondition_Syscall condition = some s') :
    ∃ ce, s.ConditionTable condition.toNat = some ce ∧ (s.conditionEntries ce).isSome = true ∧
      s' = if s.kernel.conditionBusy ce then
        { s with
          conditionEntries :=
            Function.update s.conditionEntries ce (some { isToBeDeleted := true }) }
      else s.deleteCondition condition.toNat ce := by
  unfold Tables.DestroyCondition_Syscall at hstep
  split at hstep
  · cases hstep
  split at hstep
  · cases hstep
  · rename_i ce hslot
    obtain ⟨a, ha, rfl⟩ := Option.map_eq_some_iff.mp hstep
    exact ⟨ce, hslot, by rw [ha]; rfl, rfl⟩

theorem DestroyCondition (h : TablesInv s) {condition : Int}
    (hstep : s.DestroyCondition_Syscall condition = some s') : TablesInv s' := by
  obtain ⟨ce, -, ha, rfl⟩ := DestroyCondition_cases hstep
  split
  · refine ⟨h.synched, h.lockEntries, fun ce' hce => ?_, h.locks, h.conditions, h.marked⟩
    by_cases heq : ce' = ce
    · rw [heq]
      exact h.conditionEntries ce ha
    · exact h.conditionEntries ce' (by simpa [heq] using hce)
  · exact h.deleteCondition _ _

/-! ### Steps -/

theorem check (h : TablesInv s) {check : Check} (hstep : s.check check = some s') :
    TablesInv s' := by
  cases check with
  | lock lock le =>
    obtain ⟨a, -, rfl⟩ := Option.map_eq_some_iff.mp hstep
    split
    · exact h.deleteLock lock le
    · exact h
  | condition condition ce =>
    obtain ⟨a, -, rfl⟩ := Option.map_eq_some_iff.mp hstep
    split
    · exact h.deleteCondition condition ce
    · exact h

theorem syscall (h : TablesInv s) (hidle : s.kernel.idle = false)
    (hpc : s.kernel.pc s.kernel.currentThread = .user) {c : Syscall}
    (hkeeps : KeepsWaiters s (.syscall c)) (hstep : s.syscall c = some s') : TablesInv s' := by
  cases c with
  | CreateLock =>
    cases hstep
    exact h.CreateLock
  | Acquire lock => exact h.Acquire hidle hstep
  | Release lock => exact h.Release hpc hkeeps hstep
  | DestroyLock lock => exact h.DestroyLock hstep
  | CreateCondition =>
    cases hstep
    exact h.CreateCondition
  | Wait condition lock => exact h.Wait hidle hkeeps hstep
  | Signal condition lock => exact h.Signal hstep
  | Broadcast condition lock => exact h.Broadcast hstep
  | DestroyCondition condition => exact h.DestroyCondition hstep

theorem step (h : TablesInv s) {op : TablesOp} (hstep : Restrict TablesStep KeepsWaiters s op s') :
    TablesInv s' := by
  obtain ⟨hstep, hkeeps⟩ := hstep
  cases op with
  | kernel op => exact h.kernel hstep
  | syscall c =>
    unfold TablesStep Tables.next at hstep
    dsimp only at hstep
    split at hstep
    · rename_i hready
      exact h.syscall hready.1 hready.2.1 hkeeps hstep
    · cases hstep
  | check =>
    unfold TablesStep Tables.next at hstep
    dsimp only at hstep
    split at hstep
    · obtain ⟨check, -, hcheck⟩ := Option.bind_eq_some_iff.mp hstep
      obtain ⟨s₁, hs₁, rfl⟩ := Option.map_eq_some_iff.mp hcheck
      exact (h.check hs₁).setChecking none
    · cases hstep

end TablesInv

/-! ## What is deleted -/

section Deleted

variable {s s' : Tables} {le : Nat} (hle : (s.lockEntries le).isSome = true)
  (hgone : s'.lockEntries le = none)

include hle hgone

/-- The entry was there before the step. -/
theorem entries_differ : s'.lockEntries ≠ s.lockEntries := by
  intro hsame
  rw [← hsame, hgone] at hle
  cases hle

/-- Only its own deletion takes an entry away. -/
theorem eq_of_deleteLock (lock : Int) {le' : Nat}
    (hs' : s'.lockEntries = (s.deleteLock lock.toNat le').lockEntries) : le = le' := by
  by_contra hne
  rw [hs'] at hgone
  have hkept : (s.deleteLock lock.toNat le').lockEntries le = s.lockEntries le :=
    Function.update_of_ne hne _ _
  rw [← hkept, hgone] at hle
  cases hle

/-- **The deferred deletion** tests the mark and the lock. -/
theorem lock_deleted_check {check : Check} (hstep : s.check check = some s') :
    s.Marked le ∧ s.kernel.lockBusy le = false := by
  cases check with
  | lock lock le' =>
    obtain ⟨a, ha, rfl⟩ := Option.map_eq_some_iff.mp hstep
    split at hgone
    · rename_i htest
      obtain rfl := eq_of_deleteLock hle hgone lock rfl
      exact ⟨⟨a, ha, htest.1⟩, by simpa using htest.2⟩
    · exact absurd rfl (entries_differ hle hgone)
  | condition condition ce =>
    obtain ⟨a, -, rfl⟩ := Option.map_eq_some_iff.mp hstep
    split at hgone
    · exact absurd rfl (entries_differ hle hgone)
    · exact absurd rfl (entries_differ hle hgone)

/-- **`DestroyLock`** tests the lock. -/
theorem lock_deleted_syscall {c : Syscall} (hstep : s.syscall c = some s') :
    ∃ lock, c = .DestroyLock lock ∧ s.Lock_Syscall_InputValidation lock = some le ∧
      s.kernel.lockBusy le = false := by
  have hdiffer := entries_differ hle hgone
  cases c with
  | DestroyLock lock =>
    rcases TablesInv.withLock_cases hstep with rfl | ⟨le', a, hvalid, ha, rfl⟩
    · exact absurd rfl hdiffer
    by_cases hbusy : s.kernel.lockBusy le' = true
    · rw [if_pos hbusy] at hgone
      by_cases heq : le = le'
      · simp [heq] at hgone
      · simp [heq] at hgone
        rw [hgone] at hle
        cases hle
    · rw [if_neg hbusy] at hgone
      obtain rfl := eq_of_deleteLock hle hgone lock rfl
      exact ⟨lock, rfl, hvalid, by simpa using hbusy⟩
  | CreateLock =>
    cases hstep
    unfold Tables.CreateLock_Syscall at hgone
    split at hgone
    · rw [hgone] at hle
      cases hle
    · by_cases heq : le = s.objects
      · simp [heq] at hgone
      · simp [heq] at hgone
        rw [hgone] at hle
        cases hle
  | CreateCondition =>
    cases hstep
    unfold Tables.CreateCondition_Syscall at hdiffer
    split at hdiffer
    · exact absurd rfl hdiffer
    · exact absurd rfl hdiffer
  | Acquire lock =>
    rcases TablesInv.withLock_cases hstep with rfl | ⟨_, _, _, _, rfl⟩
    · exact absurd rfl hdiffer
    · exact absurd rfl hdiffer
  | Release lock =>
    rcases TablesInv.withLock_cases hstep with rfl | ⟨_, _, _, _, rfl⟩
    · exact absurd rfl hdiffer
    · exact absurd rfl hdiffer
  | Wait condition lock | Signal condition lock | Broadcast condition lock =>
    rcases TablesInv.withCondition_cases hstep with rfl | ⟨_, _, _, _, _, rfl⟩
    · exact absurd rfl hdiffer
    · exact absurd rfl hdiffer
  | DestroyCondition condition =>
    obtain ⟨ce, -, -, rfl⟩ := TablesInv.DestroyCondition_cases hstep
    split at hdiffer
    · exact absurd rfl hdiffer
    · exact absurd rfl hdiffer

end Deleted

section DeletedCondition

variable {s s' : Tables} {ce : Nat} (hce : (s.conditionEntries ce).isSome = true)
  (hgone : s'.conditionEntries ce = none)

include hce hgone

theorem conditionEntries_differ : s'.conditionEntries ≠ s.conditionEntries := by
  intro hsame
  rw [← hsame, hgone] at hce
  cases hce

theorem eq_of_deleteCondition (condition : Int) {ce' : Nat}
    (hs' : s'.conditionEntries = (s.deleteCondition condition.toNat ce').conditionEntries) :
    ce = ce' := by
  by_contra hne
  rw [hs'] at hgone
  have hkept : (s.deleteCondition condition.toNat ce').conditionEntries ce =
      s.conditionEntries ce := Function.update_of_ne hne _ _
  rw [← hkept, hgone] at hce
  cases hce

theorem condition_deleted_check {check : Check} (hstep : s.check check = some s') :
    s.kernel.conditionBusy ce = false := by
  cases check with
  | lock lock le =>
    obtain ⟨a, -, rfl⟩ := Option.map_eq_some_iff.mp hstep
    split at hgone
    · exact absurd rfl (conditionEntries_differ hce hgone)
    · exact absurd rfl (conditionEntries_differ hce hgone)
  | condition condition ce' =>
    obtain ⟨a, -, rfl⟩ := Option.map_eq_some_iff.mp hstep
    split at hgone
    · rename_i htest
      obtain rfl := eq_of_deleteCondition hce hgone condition rfl
      simpa using htest.2
    · exact absurd rfl (conditionEntries_differ hce hgone)

theorem condition_deleted_syscall {c : Syscall} (hstep : s.syscall c = some s') :
    s.kernel.conditionBusy ce = false := by
  have hdiffer := conditionEntries_differ hce hgone
  cases c with
  | DestroyCondition condition =>
    obtain ⟨ce', -, -, rfl⟩ := TablesInv.DestroyCondition_cases hstep
    by_cases hbusy : s.kernel.conditionBusy ce' = true
    · rw [if_pos hbusy] at hgone
      by_cases heq : ce = ce'
      · simp [heq] at hgone
      · simp [heq] at hgone
        rw [hgone] at hce
        cases hce
    · rw [if_neg hbusy] at hgone
      obtain rfl := eq_of_deleteCondition hce hgone condition rfl
      simpa using hbusy
  | CreateCondition =>
    cases hstep
    unfold Tables.CreateCondition_Syscall at hgone
    split at hgone
    · rw [hgone] at hce
      cases hce
    · by_cases heq : ce = s.objects
      · simp [heq] at hgone
      · simp [heq] at hgone
        rw [hgone] at hce
        cases hce
  | CreateLock =>
    cases hstep
    unfold Tables.CreateLock_Syscall at hdiffer
    split at hdiffer
    · exact absurd rfl hdiffer
    · exact absurd rfl hdiffer
  | Acquire lock =>
    rcases TablesInv.withLock_cases hstep with rfl | ⟨_, _, _, _, rfl⟩
    · exact absurd rfl hdiffer
    · exact absurd rfl hdiffer
  | Release lock =>
    rcases TablesInv.withLock_cases hstep with rfl | ⟨_, _, _, _, rfl⟩
    · exact absurd rfl hdiffer
    · exact absurd rfl hdiffer
  | DestroyLock lock =>
    rcases TablesInv.withLock_cases hstep with rfl | ⟨_, _, _, _, rfl⟩
    · exact absurd rfl hdiffer
    · split at hdiffer
      · exact absurd rfl hdiffer
      · exact absurd rfl hdiffer
  | Wait condition lock | Signal condition lock | Broadcast condition lock =>
    rcases TablesInv.withCondition_cases hstep with rfl | ⟨_, _, _, _, _, rfl⟩
    · exact absurd rfl hdiffer
    · exact absurd rfl hdiffer

end DeletedCondition

/-- What a step that takes an entry away can be. -/
theorem deleting_step {s s' : Tables} {op : TablesOp} (hstep : TablesStep s op s') :
    (s'.lockEntries = s.lockEntries ∧ s'.conditionEntries = s.conditionEntries) ∨
    (∃ c, op = .syscall c ∧ s.syscall c = some s') ∨
    (∃ check s₁, op = .check ∧ s.check check = some s₁ ∧ s' = s₁.setChecking none) := by
  unfold TablesStep Tables.next at hstep
  cases op with
  | kernel op =>
    dsimp only at hstep
    split at hstep
    · obtain ⟨kernel, -, rfl⟩ := Option.map_eq_some_iff.mp hstep
      exact .inl ⟨rfl, rfl⟩
    · cases hstep
  | syscall c =>
    dsimp only at hstep
    split at hstep
    · exact .inr (.inl ⟨c, rfl, hstep⟩)
    · cases hstep
  | check =>
    dsimp only at hstep
    split at hstep
    · obtain ⟨check, -, hcheck⟩ := Option.bind_eq_some_iff.mp hstep
      obtain ⟨s₁, hs₁, rfl⟩ := Option.map_eq_some_iff.mp hcheck
      exact .inr (.inr ⟨check, s₁, rfl, hs₁, rfl⟩)
    · cases hstep

/-- Nobody owns the lock, is queued on it, or is inside `Wait` with it. -/
structure Unneeded (k : Kernel) (l : Nat) : Prop where
  owner : (k.locks l).lockOwner = none
  queue : (k.locks l).queue = []
  waits : ¬ k.Waited l

/-- **A lock or condition still needed is not deleted**, in every run that keeps the waiters. -/
theorem deleted_unneeded {main : ThreadId} {values : Nat → Int} {s s' : Tables} {op : TablesOp}
    (h : Reachable (Restrict TablesStep KeepsWaiters) (.init main values) s)
    (hstep : Restrict TablesStep KeepsWaiters s op s') :
    (∀ le, (s.lockEntries le).isSome = true → s'.lockEntries le = none →
      Unneeded s.kernel le) ∧
    (∀ ce, (s.conditionEntries ce).isSome = true → s'.conditionEntries ce = none →
      (s.kernel.conditions ce).queue = []) := by
  have hall : TablesInv s := h.invariant (tablesInv_init main values) fun _ _ _ h => h.step
  obtain ⟨hstep, hkeeps⟩ := hstep
  have hfree : ∀ {l}, s.kernel.lockBusy l = false → (s.kernel.locks l).lockState = .FREE := by
    intro l hbusy
    cases hstate : (s.kernel.locks l).lockState with
    | FREE => rfl
    | BUSY => simp [Kernel.lockBusy, hstate] at hbusy
  have hunneeded : ∀ {l}, s.kernel.lockBusy l = false → ¬ s.kernel.Waited l →
      Unneeded s.kernel l := by
    intro l hbusy hwaits
    have hok := hall.synched.owned.ok l
    exact ⟨hok.free.mp (hfree hbusy), hok.queue (hfree hbusy), hwaits⟩
  rcases deleting_step hstep with ⟨hlocks, hconditions⟩ | ⟨c, rfl, hc⟩ | ⟨check, s₁, rfl, hc, rfl⟩
  · refine ⟨fun le hle hgone => ?_, fun ce hce hgone => ?_⟩
    · exact absurd hlocks (entries_differ hle hgone)
    · exact absurd hconditions (conditionEntries_differ hce hgone)
  · refine ⟨fun le hle hgone => ?_, fun ce hce hgone => ?_⟩
    · obtain ⟨lock, rfl, hvalid, hbusy⟩ := lock_deleted_syscall hle hgone hc
      apply hunneeded hbusy
      rcases hkeeps le hvalid with hstate | hnone
      · rw [hfree hbusy] at hstate
        cases hstate
      · exact hnone
    · simpa [Kernel.conditionBusy] using condition_deleted_syscall hce hgone hc
  · refine ⟨fun le hle hgone => ?_, fun ce hce hgone => ?_⟩
    · have hgone₁ : s₁.lockEntries le = none := hgone
      obtain ⟨hmarked, hbusy⟩ := lock_deleted_check hle hgone₁ hc
      exact hunneeded hbusy (hall.marked le hmarked (hfree hbusy))
    · have hgone₁ : s₁.conditionEntries ce = none := hgone
      simpa [Kernel.conditionBusy] using condition_deleted_check hce hgone₁ hc

/-! ## Two runs -/

/-- A test of the condition that does not look at the threads inside `Wait`. -/
def keepsBusy (s : Tables) : TablesOp → Bool
  | .syscall (.DestroyLock lock) =>
    (s.Lock_Syscall_InputValidation lock).all fun le => s.kernel.lockBusy le
  | .syscall (.Release lock) =>
    (s.Lock_Syscall_InputValidation lock).all fun le => decide (s.lockEntries le = some {})
  | .syscall (.Wait condition lock) =>
    (s.Condition_Syscall_InputValidation condition lock).all fun entries =>
      decide (s.lockEntries entries.2 = some {})
  | _ => true

theorem keepsWaiters_of_keepsBusy {s : Tables} {op : TablesOp} (h : keepsBusy s op = true) :
    KeepsWaiters s op := by
  have hunmarked : ∀ {le}, s.lockEntries le = some {} → ¬ s.Marked le := by
    rintro le heq ⟨a, ha, hmark⟩
    cases heq.symm.trans ha
    cases hmark
  unfold keepsBusy at h
  split at h
  · intro le hvalid
    rw [hvalid] at h
    exact .inl (of_decide_eq_true h)
  · intro le hvalid hmarked
    rw [hvalid] at h
    exact absurd hmarked (hunmarked (of_decide_eq_true h))
  · intro ce le hvalid hmarked
    rw [hvalid] at h
    exact absurd hmarked (hunmarked (of_decide_eq_true h))
  · rename_i hdestroy hrelease hwait
    unfold KeepsWaiters
    split
    · exact absurd rfl (hdestroy _)
    · exact absurd rfl (hrelease _)
    · exact absurd rfl (hwait _ _)
    · trivial

/-- The main thread waits, and thread 1 runs. -/
def waitThenRun : List TablesOp :=
  [.syscall .CreateLock, .syscall .CreateCondition, .kernel (.call (.Fork 1)),
    .syscall (.Acquire 0), .syscall (.Wait 0 0), .kernel .dispatch]

/-- Thread 1 wakes the main thread, which destroys the lock while it owns it. -/
def wakeThenDestroy : List TablesOp :=
  [.syscall (.Acquire 0), .syscall (.Signal 0 0), .check, .syscall (.Release 0), .check,
    .kernel (.call .Yield), .kernel .resume, .syscall (.DestroyLock 0)]

/-- The lock was marked while the main thread had it, and is deleted when it gives it up. -/
theorem deleted_unneeded_released : ∃ s s', Reachable (Restrict TablesStep KeepsWaiters)
    (.init 0 fun _ => 0) s ∧ Restrict TablesStep KeepsWaiters s .check s' ∧
    (s.lockEntries 0).isSome = true ∧ s'.lockEntries 0 = none ∧ Unneeded s.kernel 0 := by
  have hrun : (Lib.execute (Lib.guarded Tables.next fun s op => keepsBusy s op = true)
      (.init 0 fun _ => 0) (waitThenRun ++ wakeThenDestroy)).any (fun s =>
        decide (s.kernel.pc 0 = .user ∧ s.kernel.pc 1 = .user) &&
        (s.next (.syscall (.Release 0))).any fun s₁ => decide ((s₁.lockEntries 0).isSome = true) &&
          (s₁.next .check).any fun s₂ => decide (s₂.lockEntries 0 = none)) = true := by
    decide +kernel
  have hrest : ∀ t, (Lib.execute (Lib.guarded Tables.next fun s op => keepsBusy s op = true)
      (.init 0 fun _ => 0) (waitThenRun ++ wakeThenDestroy)).map
        (fun s => s.kernel.pc (t + 2)) = some .user := fun t => rfl
  obtain ⟨s, hs, hdec⟩ := (Option.any_eq_true _ _).mp hrun
  obtain ⟨hpc, hdec⟩ := Bool.and_eq_true_iff.mp hdec
  obtain ⟨hpc₀, hpc₁⟩ := of_decide_eq_true hpc
  obtain ⟨s₁, hs₁, hdec⟩ := (Option.any_eq_true _ _).mp hdec
  obtain ⟨hle, hdec⟩ := Bool.and_eq_true_iff.mp hdec
  obtain ⟨s₂, hs₂, hgone⟩ := (Option.any_eq_true _ _).mp hdec
  have hreach : Reachable (Restrict TablesStep KeepsWaiters) (.init 0 fun _ => 0) s := by
    obtain ⟨l, hl⟩ := Lib.reachable_of_guarded (fun s a s' (h : TablesStep s a s') => h) hs
    exact ⟨l, hl.mono fun _ _ _ h => ⟨h.1, keepsWaiters_of_keepsBusy h.2⟩⟩
  -- nobody is inside `Wait` any more when the lock is given up
  have hnone : ∀ l, ¬ s.kernel.Waited l := by
    rintro l ⟨t, c, hwait⟩
    match t with
    | 0 => cases hpc₀.symm.trans hwait
    | 1 => cases hpc₁.symm.trans hwait
    | t + 2 =>
      have huser := hrest t
      rw [hs] at huser
      cases (Option.some.inj huser).symm.trans hwait
  have hrelease : Restrict TablesStep KeepsWaiters s (.syscall (.Release 0)) s₁ :=
    ⟨hs₁, fun le _ _ => .inr (hnone le)⟩
  have hreach₁ := hreach.tail hrelease
  have hstep : Restrict TablesStep KeepsWaiters s₁ .check s₂ := ⟨hs₂, trivial⟩
  exact ⟨s₁, s₂, hreach₁, hstep, of_decide_eq_true hle, of_decide_eq_true hgone,
    (deleted_unneeded hreach₁ hstep).1 0 (of_decide_eq_true hle) (of_decide_eq_true hgone)⟩

/-- Thread 1 destroys the lock that the main thread waits with. -/
theorem destroyed_under_waiter : ∃ s s', Reachable TablesStep (.init 0 fun _ => 0) s ∧
    TablesStep s (.syscall (.DestroyLock 0)) s' ∧ (s.lockEntries 0).isSome = true ∧
    s'.lockEntries 0 = none ∧ (s.kernel.conditions 1).queue = [0] ∧ ¬ Unneeded s.kernel 0 := by
  have hrun : (Lib.execute Tables.next (.init 0 fun _ => 0) waitThenRun).any (fun s =>
      decide ((s.lockEntries 0).isSome = true ∧ (s.kernel.conditions 1).queue = [0] ∧
        s.kernel.pc 0 = .Wait 1 0) &&
      (s.next (.syscall (.DestroyLock 0))).any fun s₁ => decide (s₁.lockEntries 0 = none)) =
        true := by
    decide +kernel
  obtain ⟨s, hs, hdec⟩ := (Option.any_eq_true _ _).mp hrun
  obtain ⟨hbefore, hafter⟩ := Bool.and_eq_true_iff.mp hdec
  obtain ⟨hle, hqueue, hpc⟩ := of_decide_eq_true hbefore
  obtain ⟨s₁, hs₁, hgone⟩ := (Option.any_eq_true _ _).mp hafter
  exact ⟨s, s₁, ⟨_, Lib.path_of_execute (fun _ _ _ => id) hs⟩, hs₁, hle, of_decide_eq_true hgone,
    hqueue, fun hall => hall.waits ⟨0, 1, hpc⟩⟩

end Nachos.Threads

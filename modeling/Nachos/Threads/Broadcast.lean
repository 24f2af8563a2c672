import Nachos.Threads.Conserve

/-!
# `Condition::Broadcast`

The loop of `Broadcast` runs until the queue is empty, and its body is `Signal`, which does
nothing when the lock it is given is not the `waitingLock`. `Broadcast` prints a message in
that case and goes on. So with another lock, and a thread in the queue, the loop never ends:
every round leaves the condition as it is (`broadcast_spins`).

With the `waitingLock` each round takes a thread from the queue, and other threads may do so
between two rounds, when interrupts are on. `loopSteps` bounds the steps that are left.
-/

namespace Nachos.Threads

open Lib (Placed Reachable)

/-! ## A run of the loop -/

/-- The step puts a thread into the queue of the condition. -/
def StartsWait (c : Nat) (k : Kernel) (op : Op) : Prop :=
  ∃ lock, op = .call (.Wait c (some lock)) ∧ (k.conditions c).waitingLock.getD lock = lock

/-- The thread is in the loop of `Broadcast`. -/
def InLoop (t : ThreadId) (c : Nat) (conditionLock : Option Nat) (k : Kernel) : Prop :=
  k.pc t = .Broadcast c conditionLock ∨ k.pc t = .Signal c conditionLock

/-- The threads in the queue of the condition that the step puts on the ready list. -/
def wokenBy (c : Nat) (k k' : Kernel) : List ThreadId :=
  (k.conditions c).queue.filter fun u => decide (u ∉ k.readyList ∧ u ∈ k'.readyList)

/-- A run from the state `k`, as long as the thread `t` is in the loop: `n` steps of `t`, the
threads that were woken, in order, and the state reached. Other threads, the devices and the
timer may do anything in between, except that nobody starts to wait on the condition. -/
inductive Loop (t : ThreadId) (c : Nat) (conditionLock : Option Nat) (k : Kernel) :
    Nat → List ThreadId → Kernel → Prop where
  | start : Loop t c conditionLock k 0 [] k
  | step {n woken k₁ op k₂} (hloop : Loop t c conditionLock k n woken k₁)
      (hin : InLoop t c conditionLock k₁) (hstep : KernelStep k₁ op k₂)
      (hwait : ¬ StartsWait c k₁ op) :
      Loop t c conditionLock k (n + if k₁.currentThread = t ∧ op = .resume then 1 else 0)
        (woken ++ wokenBy c k₁ k₂) k₂

/-- `Broadcast`, called by the running thread: its loop ends; with the `waitingLock` every
thread that was queued is woken once, in order; with another lock nobody is woken and the
condition stays. -/
structure BroadcastRight (k : Kernel) (c lock : Nat) : Prop where
  ends : ∃ bound, ∀ n woken k', Loop k.currentThread c (some lock) (k.Broadcast c (some lock))
    n woken k' → n ≤ bound
  wakes : (k.conditions c).waitingLock = some lock → ∀ n woken k',
    Loop k.currentThread c (some lock) (k.Broadcast c (some lock)) n woken k' →
    ¬ InLoop k.currentThread c (some lock) k' →
      woken = (k.conditions c).queue ∧ woken.Nodup ∧ (k'.conditions c).queue = []
  other : (k.conditions c).waitingLock ≠ some lock → ∀ n woken k',
    Loop k.currentThread c (some lock) (k.Broadcast c (some lock)) n woken k' →
      woken = [] ∧ k'.conditions c = k.conditions c

/-! ## What a step does to a condition -/

/-- A step leaves the condition, or takes its first thread to the ready list. -/
inductive ConditionStep (c : Nat) (k k' : Kernel) : Prop where
  | same (hsame : k'.conditions c = k.conditions c)
  | signal {lock : Nat} {u : ThreadId} {rest : List ThreadId}
      (hbefore : k.conditions c = ⟨some lock, u :: rest⟩)
      (hafter : k'.conditions c = ⟨if rest = [] then none else some lock, rest⟩)
      (hready : u ∈ k'.readyList)

namespace Kernel

variable (k : Kernel)

theorem conditions_P (s : Nat) : (k.P s).conditions = k.conditions := by
  unfold P
  dsimp only
  split <;> rfl

theorem conditions_V (s : Nat) : (k.V s).conditions = k.conditions := by
  unfold V
  dsimp only
  split <;> rfl

theorem conditions_Acquire (l : Nat) : (k.Acquire l).conditions = k.conditions := by
  unfold Acquire
  dsimp only
  split
  · rfl
  · split <;> rfl

theorem conditions_Release (l : Nat) : (k.Release l).conditions = k.conditions := by
  by_cases hheld : k.isHeldByCurrentThread l
  · cases hq : (k.locks l).queue with
    | nil => rw [Release_nil hheld hq]; rfl
    | cons t rest => rw [Release_cons hheld hq]; rfl
  · rw [Release_of_not_held hheld]

theorem conditions_Yield : k.Yield.conditions = k.conditions := by
  unfold Yield
  split <;> rfl

theorem setCondition_other {c c' : Nat} (a : Condition) (hc : c' ≠ c) :
    (k.setCondition c a).conditions c' = k.conditions c' :=
  Function.update_of_ne hc _ _

/-- A `Wait` that does not start to wait on the condition leaves it. -/
theorem conditions_Wait {c c' : Nat} {conditionLock : Option Nat}
    (hwait : ¬ StartsWait c k (.call (.Wait c' conditionLock))) :
    (k.Wait c' conditionLock).conditions c = k.conditions c := by
  cases conditionLock with
  | none => rfl
  | some lock =>
    unfold Wait
    dsimp only
    split
    · rfl
    · rename_i heq
      have hne : c ≠ c' := by
        rintro rfl
        exact hwait ⟨lock, rfl, (not_not.mp heq).symm⟩
      show ((k.setCondition c' _).Release _).conditions c = _
      rw [conditions_Release]
      exact k.setCondition_other _ hne

end Kernel

/-- **`Signal` and a condition.** -/
theorem conditionStep_Signal {k : Kernel} (h : Synched k) (c c' : Nat)
    (conditionLock : Option Nat) : ConditionStep c k (k.Signal c' conditionLock) := by
  by_cases hnone : (k.conditions c').waitingLock = none
  · have hkeep : k.Signal c' conditionLock = k := if_pos hnone
    rw [hkeep]
    exact .same rfl
  by_cases hlock : (k.conditions c').waitingLock = conditionLock
  swap
  · have hkeep : k.Signal c' conditionLock = k := by
      simp [Kernel.Signal, hlock]
    rw [hkeep]
    exact .same rfl
  obtain ⟨lock, hsome⟩ := Option.ne_none_iff_exists'.mp hnone
  cases hq : (k.conditions c').queue with
  | nil => exact absurd ((h.conditions c').mpr hq) hnone
  | cons u rest =>
    rw [Kernel.Signal_cons hlock (hlock ▸ hnone) hq]
    by_cases hc : c = c'
    · subst hc
      have hbefore : k.conditions c = ⟨some lock, u :: rest⟩ := by rw [← hsome, ← hq]
      refine .signal hbefore ?_ ?_
      · rw [hsome] at hlock
        subst hlock
        exact Function.update_self _ _ _
      · exact List.mem_append_right _ (List.mem_singleton.mpr rfl)
    · exact .same (k.setCondition_other _ hc)

/-- **One step and a condition** that nobody starts to wait on. -/
theorem conditionStep {k k' : Kernel} (h : Synched k) {op : Op} (hstep : KernelStep k op k')
    {c : Nat} (hwait : ¬ StartsWait c k op) : ConditionStep c k k' := by
  unfold KernelStep Kernel.next at hstep
  cases op with
  | call call =>
    obtain ⟨-, rfl⟩ := by simpa using hstep
    cases call with
    | P s => exact .same (congrFun (k.conditions_P s) c)
    | V s => exact .same (congrFun (k.conditions_V s) c)
    | Acquire l => exact .same (congrFun (k.conditions_Acquire l) c)
    | Release l => exact .same (congrFun (k.conditions_Release l) c)
    | Wait c' conditionLock => exact .same (k.conditions_Wait hwait)
    | Signal c' conditionLock => exact conditionStep_Signal h c c' conditionLock
    | Broadcast c' conditionLock =>
      refine .same ?_
      show (k.Broadcast c' conditionLock).conditions c = _
      unfold Kernel.Broadcast
      split <;> rfl
    | Yield => exact .same (congrFun k.conditions_Yield c)
    | Fork t => exact .same rfl
    | Finish => exact .same rfl
  | resume =>
    obtain ⟨-, rfl⟩ := by simpa using hstep
    cases hpc : k.pc k.currentThread with
    | user => exact .same rfl
    | P s => exact .same (congrFun (k.conditions_P s) c)
    | Acquire l => exact .same rfl
    | Wait c' l => exact .same (congrFun (k.conditions_Acquire l) c)
    | Broadcast c' conditionLock =>
      refine .same ?_
      show (if (k.conditions c').queue = [] then _ else _ : Kernel).conditions c = _
      split <;> rfl
    | Signal c' conditionLock =>
      cases conditionStep_Signal h c c' conditionLock with
      | same hsame => exact .same hsame
      | signal hbefore hafter hready => exact .signal hbefore hafter hready
  | dispatch =>
    obtain ⟨-, hnext⟩ := by simpa using hstep
    unfold Kernel.dispatch at hnext
    cases hready : k.readyList with
    | nil => simp [hready] at hnext
    | cons u rest =>
      rw [hready] at hnext
      cases hnext
      exact .same rfl
  | interrupt s =>
    obtain ⟨-, rfl⟩ := by simpa using hstep
    exact .same (congrFun (k.conditions_V s) c)
  | timer =>
    obtain ⟨-, rfl⟩ := by simpa using hstep
    exact .same (congrFun k.conditions_Yield c)

/-- A thread in the queue of a condition is not on the ready list. -/
theorem Synched.notReady {k : Kernel} (h : Synched k) {c : Nat} {u : ThreadId}
    (hu : u ∈ (k.conditions c).queue) : u ∉ k.readyList := by
  intro hready
  cases h.placed.unique u (.condition c) .ready hu hready

/-- **What the step woke** is what it took from the queue. -/
theorem wokenBy_append {k k' : Kernel} (h : Synched k) (h' : Synched k') {c : Nat}
    (hstep : ConditionStep c k k') :
    (k.conditions c).queue = wokenBy c k k' ++ (k'.conditions c).queue := by
  cases hstep with
  | same hsame =>
    have hnone : wokenBy c k k' = [] := by
      apply List.filter_eq_nil_iff.mpr
      intro u hu hwoken
      rw [← hsame] at hu
      exact h'.notReady hu (of_decide_eq_true hwoken).2
    rw [hnone, hsame]
    rfl
  | @signal lock u rest hbefore hafter hready =>
    have hqueue : (k.conditions c).queue = u :: rest := by rw [hbefore]
    have hqueue' : (k'.conditions c).queue = rest := by rw [hafter]
    have hfirst : u ∉ k.readyList := h.notReady (by rw [hqueue]; exact List.mem_cons_self)
    have hothers : rest.filter (fun u => decide (u ∉ k.readyList ∧ u ∈ k'.readyList)) = [] := by
      apply List.filter_eq_nil_iff.mpr
      intro v hv hwoken
      rw [← hqueue'] at hv
      exact h'.notReady hv (of_decide_eq_true hwoken).2
    rw [wokenBy, hqueue, hqueue', List.filter_cons_of_pos (by simp [hfirst, hready]), hothers]
    rfl

/-! ## What a step does to the thread in the loop -/

/-- The step is no step of the thread, which goes on where it was. -/
structure Untouched (t : ThreadId) (k k' : Kernel) : Prop where
  pc : k'.pc t = k.pc t
  live : k'.live t = k.live t

namespace Kernel

variable {k : Kernel} {t : ThreadId}

theorem untouched_goTo (ht : k.currentThread ≠ t) (pc : PC) : Untouched t k (k.goTo pc) :=
  ⟨Function.update_of_ne (Ne.symm ht) _ _, rfl⟩

theorem untouched_V (k : Kernel) (t : ThreadId) (s : Nat) : Untouched t k (k.V s) := by
  unfold V
  dsimp only
  split
  · exact ⟨rfl, rfl⟩
  · exact ⟨rfl, rfl⟩

theorem untouched_Yield (k : Kernel) (t : ThreadId) : Untouched t k k.Yield := by
  unfold Yield
  split
  · exact ⟨rfl, rfl⟩
  · exact ⟨rfl, rfl⟩

theorem untouched_P (ht : k.currentThread ≠ t) (s : Nat) : Untouched t k (k.P s) := by
  have hgo := untouched_goTo (k := k) ht
  unfold P
  dsimp only
  split
  · exact ⟨(hgo (.P s)).pc, rfl⟩
  · exact ⟨(hgo .user).pc, rfl⟩

theorem untouched_Acquire (ht : k.currentThread ≠ t) (l : Nat) : Untouched t k (k.Acquire l) := by
  have hgo := untouched_goTo (k := k) ht
  unfold Acquire acquired
  dsimp only
  split
  · exact ⟨(hgo .user).pc, rfl⟩
  · split
    · exact ⟨(hgo .user).pc, rfl⟩
    · exact ⟨(hgo (.Acquire l)).pc, rfl⟩

theorem untouched_Release (k : Kernel) (t : ThreadId) (l : Nat) : Untouched t k (k.Release l) := by
  by_cases hheld : k.isHeldByCurrentThread l
  · cases hq : (k.locks l).queue with
    | nil => rw [Release_nil hheld hq]; exact ⟨rfl, rfl⟩
    | cons u rest => rw [Release_cons hheld hq]; exact ⟨rfl, rfl⟩
  · rw [Release_of_not_held hheld]
    exact ⟨rfl, rfl⟩

theorem currentThread_Release (k : Kernel) (l : Nat) :
    (k.Release l).currentThread = k.currentThread := by
  by_cases hheld : k.isHeldByCurrentThread l
  · cases hq : (k.locks l).queue with
    | nil => rw [Release_nil hheld hq]; rfl
    | cons u rest => rw [Release_cons hheld hq]; rfl
  · rw [Release_of_not_held hheld]

theorem untouched_Wait (ht : k.currentThread ≠ t) (c : Nat) (conditionLock : Option Nat) :
    Untouched t k (k.Wait c conditionLock) := by
  cases conditionLock with
  | none => exact ⟨rfl, rfl⟩
  | some lock =>
    unfold Wait
    dsimp only
    split
    · exact ⟨rfl, rfl⟩
    · generalize hk' : k.setCondition c _ = k'
      have hcur : k'.currentThread = k.currentThread := by rw [← hk']; rfl
      have hrel := untouched_Release k' t ((k.conditions c).waitingLock.getD lock)
      have hgo := untouched_goTo (k := k'.Release ((k.conditions c).waitingLock.getD lock)) (t := t)
        (by rw [currentThread_Release, hcur]; exact ht) (.Wait c lock)
      refine ⟨hgo.pc.trans (hrel.pc.trans ?_), hrel.live.trans ?_⟩
      · rw [← hk']; rfl
      · rw [← hk']; rfl

theorem untouched_Signal (k : Kernel) (t : ThreadId) (c : Nat) (conditionLock : Option Nat) :
    Untouched t k (k.Signal c conditionLock) := by
  unfold Signal
  dsimp only
  split
  · exact ⟨rfl, rfl⟩
  · split
    · exact ⟨rfl, rfl⟩
    · cases (k.conditions c).queue.head? with
      | none => exact ⟨rfl, rfl⟩
      | some u => exact ⟨rfl, rfl⟩

theorem currentThread_Signal (k : Kernel) (c : Nat) (conditionLock : Option Nat) :
    (k.Signal c conditionLock).currentThread = k.currentThread := by
  unfold Signal
  dsimp only
  split
  · rfl
  · split
    · rfl
    · cases (k.conditions c).queue.head? with
      | none => rfl
      | some u => rfl

end Kernel

/-- **Nothing but a step of its own moves a thread** that is in an operation. -/
theorem untouched_step {k k' : Kernel} {op : Op} (hstep : KernelStep k op k') {t : ThreadId}
    (hlive : k.live t = true) (hpc : k.pc t ≠ .user)
    (hother : ¬ (k.currentThread = t ∧ op = .resume)) : Untouched t k k' := by
  unfold KernelStep Kernel.next at hstep
  cases op with
  | call call =>
    obtain ⟨⟨-, huser, hallowed⟩, rfl⟩ := by simpa using hstep
    have ht : k.currentThread ≠ t := by
      rintro rfl
      exact hpc huser
    cases call with
    | P s => exact Kernel.untouched_P ht s
    | V s => exact k.untouched_V t s
    | Acquire l => exact Kernel.untouched_Acquire ht l
    | Release l => exact k.untouched_Release t l
    | Wait c conditionLock => exact Kernel.untouched_Wait ht c conditionLock
    | Signal c conditionLock => exact k.untouched_Signal t c conditionLock
    | Broadcast c conditionLock =>
      show Untouched t k (k.Broadcast c conditionLock)
      unfold Kernel.Broadcast
      split
      · exact ⟨rfl, rfl⟩
      · exact Kernel.untouched_goTo ht _
    | Yield => exact k.untouched_Yield t
    | Fork u =>
      have hne : t ≠ u := by
        rintro rfl
        simp [Call.allowed, hlive] at hallowed
      exact ⟨Function.update_of_ne hne _ _, Function.update_of_ne hne _ _⟩
    | Finish => exact ⟨rfl, Function.update_of_ne (Ne.symm ht) _ _⟩
  | resume =>
    obtain ⟨-, rfl⟩ := by simpa using hstep
    have ht : k.currentThread ≠ t := fun ht => hother ⟨ht, rfl⟩
    cases hcur : k.pc k.currentThread with
    | user => exact ⟨rfl, rfl⟩
    | P s => exact Kernel.untouched_P ht s
    | Acquire l => exact ⟨(Kernel.untouched_goTo ht .user).pc, rfl⟩
    | Wait c l => exact Kernel.untouched_Acquire ht l
    | Broadcast c conditionLock =>
      show Untouched t k (if (k.conditions c).queue = [] then _ else _)
      split
      · exact Kernel.untouched_goTo ht _
      · exact Kernel.untouched_goTo ht _
    | Signal c conditionLock =>
      have hsig := k.untouched_Signal t c conditionLock
      have hgo := Kernel.untouched_goTo (k := k.Signal c conditionLock) (t := t)
        (by rw [Kernel.currentThread_Signal]; exact ht) (.Broadcast c conditionLock)
      exact ⟨hgo.pc.trans hsig.pc, hsig.live⟩
  | dispatch =>
    obtain ⟨-, hnext⟩ := by simpa using hstep
    unfold Kernel.dispatch at hnext
    cases hready : k.readyList with
    | nil => simp [hready] at hnext
    | cons u rest =>
      rw [hready] at hnext
      cases hnext
      exact ⟨rfl, rfl⟩
  | interrupt s =>
    obtain ⟨-, rfl⟩ := by simpa using hstep
    exact k.untouched_V t s
  | timer =>
    obtain ⟨-, rfl⟩ := by simpa using hstep
    exact k.untouched_Yield t

/-! ## The loop ends -/

/-- The steps that the thread has left in the loop, at most, when the queue of the condition
has `q` threads: two for each, and the last test. -/
def loopSteps (q : Nat) : PC → Nat
  | .Broadcast _ _ => 2 * q + 1
  | .Signal _ _ => 2 * max q 1
  | _ => 0

theorem loopSteps_mono {q q' : Nat} (hq : q' ≤ q) (pc : PC) : loopSteps q' pc ≤ loopSteps q pc := by
  cases pc with
  | Broadcast => simp only [loopSteps]; omega
  | Signal => simp only [loopSteps]; omega
  | user | P | Acquire | Wait => exact Nat.le_refl _

/-- The queue gets no longer, and a `waitingLock` is kept until it is empty. -/
theorem ConditionStep.shrinks {c : Nat} {k k' : Kernel} (h : ConditionStep c k k') {lock : Nat}
    (hlock : (k.conditions c).waitingLock = none ∨ (k.conditions c).waitingLock = some lock) :
    (k'.conditions c).queue.length ≤ (k.conditions c).queue.length ∧
      ((k'.conditions c).waitingLock = none ∨ (k'.conditions c).waitingLock = some lock) := by
  cases h with
  | same hsame =>
    rw [hsame]
    exact ⟨Nat.le_refl _, hlock⟩
  | @signal lock' u rest hbefore hafter =>
    rw [hbefore] at hlock ⊢
    rw [hafter]
    refine ⟨Nat.le_succ _, ?_⟩
    rcases hlock with hlock | hlock
    · cases hlock
    · cases hlock
      dsimp only
      split
      · exact .inl rfl
      · exact .inr rfl

/-- What holds along a run of the loop that was called with the `waitingLock`. -/
structure LoopInv (t : ThreadId) (c lock : Nat) (k₀ : Kernel) (n : Nat) (woken : List ThreadId)
    (k : Kernel) : Prop where
  synched : Synched k
  live : k.live t = true
  waiting : (k.conditions c).waitingLock = none ∨ (k.conditions c).waitingLock = some lock
  queue : (k₀.conditions c).queue = woken ++ (k.conditions c).queue
  steps : n + loopSteps (k.conditions c).queue.length (k.pc t) ≤
    2 * (k₀.conditions c).queue.length + 1
  ended : ¬ InLoop t c (some lock) k → (k.conditions c).queue = []

/-- The thread's own step takes one off `loopSteps`. -/
theorem loopSteps_resume {k : Kernel} (h : Synched k) {c lock : Nat}
    (hlock : (k.conditions c).waitingLock = none ∨ (k.conditions c).waitingLock = some lock)
    (hin : InLoop k.currentThread c (some lock) k) :
    let k' := k.resume (k.pc k.currentThread)
    loopSteps (k'.conditions c).queue.length (k'.pc k.currentThread) + 1 ≤
        loopSteps (k.conditions c).queue.length (k.pc k.currentThread) ∧
      k'.live k.currentThread = k.live k.currentThread ∧
      (¬ InLoop k.currentThread c (some lock) k' → (k'.conditions c).queue = []) := by
  rcases hin with hpc | hpc
  · -- the test of the loop
    rw [hpc]
    by_cases hempty : (k.conditions c).queue = []
    · have hresume : k.resume (.Broadcast c (some lock)) = k.goTo .user := if_pos hempty
      have hself : (k.goTo .user).pc k.currentThread = .user := Function.update_self _ _ _
      rw [hresume]
      dsimp only
      rw [hself]
      refine ⟨?_, rfl, fun _ => hempty⟩
      simp only [loopSteps]
      omega
    · have hresume : k.resume (.Broadcast c (some lock)) = k.goTo (.Signal c (some lock)) :=
        if_neg hempty
      have hself : (k.goTo (.Signal c (some lock))).pc k.currentThread = .Signal c (some lock) :=
        Function.update_self _ _ _
      have hpos := List.length_pos_iff.mpr hempty
      have hkeep : (k.goTo (.Signal c (some lock))).conditions = k.conditions := rfl
      rw [hresume]
      dsimp only
      rw [hself, hkeep]
      refine ⟨?_, rfl, fun hout => absurd (.inr hself) hout⟩
      simp only [loopSteps]
      omega
  · -- the body of the loop
    rw [hpc]
    have hresume : k.resume (.Signal c (some lock)) =
        (k.Signal c (some lock)).goTo (.Broadcast c (some lock)) := rfl
    have hcur := k.currentThread_Signal c (some lock)
    have hself : ((k.Signal c (some lock)).goTo (.Broadcast c (some lock))).pc k.currentThread =
        .Broadcast c (some lock) := by
      rw [← hcur]
      exact Function.update_self _ _ _
    rw [hresume]
    dsimp only
    rw [hself]
    refine ⟨?_, (k.untouched_Signal k.currentThread c (some lock)).live,
      fun hout => absurd (.inl hself) hout⟩
    show loopSteps ((k.Signal c (some lock)).conditions c).queue.length _ + 1 ≤ _
    rcases hlock with hlock | hlock
    · -- others have woken everybody
      have hempty := (h.conditions c).mp hlock
      have hkeep : k.Signal c (some lock) = k := if_pos hlock
      rw [hkeep, hempty]
      simp [loopSteps]
    · cases hq : (k.conditions c).queue with
      | nil =>
        have hnone := (h.conditions c).mpr hq
        rw [hlock] at hnone
        cases hnone
      | cons u rest =>
        rw [Kernel.Signal_cons hlock (by simp) hq]
        have hrest : ((k.setCondition c ⟨if rest = [] then none else some lock, rest⟩).conditions
            c).queue = rest := by
          simp [Kernel.setCondition]
        show loopSteps ((k.setCondition c _).conditions c).queue.length _ + 1 ≤ _
        rw [hrest]
        simp only [loopSteps, List.length_cons]
        omega

/-- **One step of a run of the loop.** -/
theorem LoopInv.step {t : ThreadId} {c lock n : Nat} {k₀ k k' : Kernel} {woken : List ThreadId}
    {op : Op} (h : LoopInv t c lock k₀ n woken k) (hin : InLoop t c (some lock) k)
    (hstep : KernelStep k op k') (hwait : ¬ StartsWait c k op) :
    LoopInv t c lock k₀ (n + if k.currentThread = t ∧ op = .resume then 1 else 0)
      (woken ++ wokenBy c k k') k' := by
  have h' := synched_step h.synched hstep
  have hc := conditionStep h.synched hstep hwait
  obtain ⟨hlen, hlock'⟩ := hc.shrinks h.waiting
  have hqueue : (k₀.conditions c).queue = woken ++ wokenBy c k k' ++ (k'.conditions c).queue := by
    rw [List.append_assoc, ← wokenBy_append h.synched h' hc]
    exact h.queue
  have hsteps := h.steps
  by_cases hown : k.currentThread = t ∧ op = .resume
  · rw [if_pos hown]
    obtain ⟨rfl, rfl⟩ := hown
    obtain ⟨-, rfl⟩ : _ ∧ k.resume (k.pc k.currentThread) = k' := by
      simpa [KernelStep, Kernel.next] using hstep
    obtain ⟨hless, hlive, hended⟩ := loopSteps_resume h.synched h.waiting hin
    refine ⟨h', hlive.trans h.live, hlock', hqueue, ?_, hended⟩
    omega
  · rw [if_neg hown]
    have hpc : k.pc t ≠ .user := by
      rcases hin with hin | hin
      · rw [hin]; exact nofun
      · rw [hin]; exact nofun
    have hsame := untouched_step hstep h.live hpc hown
    refine ⟨h', hsame.live.trans h.live, hlock', hqueue, ?_, fun hout => absurd ?_ hout⟩
    · have hmono := loopSteps_mono hlen (k.pc t)
      rw [hsame.pc]
      omega
    · unfold InLoop
      rw [hsame.pc]
      exact hin

theorem LoopInv.of_loop {t : ThreadId} {c lock n : Nat} {k₀ k k' : Kernel} {woken : List ThreadId}
    (h : LoopInv t c lock k₀ 0 [] k) (hloop : Loop t c (some lock) k n woken k') :
    LoopInv t c lock k₀ n woken k' := by
  induction hloop with
  | start => exact h
  | step _ hin hstep hwait ih => exact ih.step hin hstep hwait

/-- The state in which a call of `Broadcast` with the `waitingLock` leaves its thread. -/
theorem loopInv_Broadcast {k : Kernel} (h : Synched k) (hidle : k.idle = false) {c lock : Nat}
    (hlock : (k.conditions c).waitingLock = some lock) :
    LoopInv k.currentThread c lock k 0 [] (k.Broadcast c (some lock)) := by
  have hgo : k.Broadcast c (some lock) = k.goTo (.Broadcast c (some lock)) := by
    simp [Kernel.Broadcast, hlock]
  have hself : (k.goTo (.Broadcast c (some lock))).pc k.currentThread = .Broadcast c (some lock) :=
    Function.update_self _ _ _
  have hcpu : k.currentThread ∈ k.threadsAt .cpu := by
    simp [Kernel.threadsAt, hidle]
  rw [hgo]
  refine ⟨h.goTo (by simp), (h.placed.mem _).mpr ⟨.cpu, hcpu⟩, .inr hlock, rfl, ?_,
    fun hout => absurd (.inl hself) hout⟩
  rw [hself]
  simp only [loopSteps, Nat.zero_add]
  exact Nat.le_refl _

/-! ## The loop does not end -/

/-- **With another lock the loop goes round for ever.** The thread alone comes back to the
same state after every two steps. -/
theorem broadcast_spins {k : Kernel} (hidle : k.idle = false) {c lock : Nat}
    (hqueue : (k.conditions c).queue ≠ []) (hnone : (k.conditions c).waitingLock ≠ none)
    (hlock : (k.conditions c).waitingLock ≠ some lock) (rounds : Nat) :
    ∃ woken, Loop k.currentThread c (some lock) (k.Broadcast c (some lock)) (2 * rounds) woken
      (k.Broadcast c (some lock)) := by
  have hgo : k.Broadcast c (some lock) = k.goTo (.Broadcast c (some lock)) := by
    simp [Kernel.Broadcast, hnone]
  rw [hgo]
  induction rounds with
  | zero => exact ⟨[], .start⟩
  | succ rounds ih =>
    obtain ⟨woken, hloop⟩ := ih
    have hself : ∀ pc, (k.goTo pc).pc k.currentThread = pc := fun pc => Function.update_self _ _ _
    -- the test: the queue is not empty
    have htest : KernelStep (k.goTo (.Broadcast c (some lock))) .resume
        (k.goTo (.Signal c (some lock))) := by
      have hresume : (k.goTo (.Broadcast c (some lock))).resume (.Broadcast c (some lock)) =
          (k.goTo (.Broadcast c (some lock))).goTo (.Signal c (some lock)) := if_neg hqueue
      show (k.goTo (.Broadcast c (some lock))).next .resume = _
      unfold Kernel.next
      rw [if_pos]
      · show some ((k.goTo _).resume ((k.goTo (.Broadcast c (some lock))).pc k.currentThread)) = _
        rw [hself, hresume]
        simp [Kernel.goTo]
      · exact ⟨hidle, fun heq => by cases (hself _).symm.trans heq⟩
    -- the body: the lock is the wrong one
    have hbody : KernelStep (k.goTo (.Signal c (some lock))) .resume
        (k.goTo (.Broadcast c (some lock))) := by
      have hsignal : (k.goTo (.Signal c (some lock))).Signal c (some lock) =
          k.goTo (.Signal c (some lock)) := by
        have hkeep : (k.goTo (.Signal c (some lock))).conditions c = k.conditions c := rfl
        simp [Kernel.Signal, hkeep, hlock]
      show (k.goTo (.Signal c (some lock))).next .resume = _
      unfold Kernel.next
      rw [if_pos]
      · show some ((k.goTo _).resume ((k.goTo (.Signal c (some lock))).pc k.currentThread)) = _
        rw [hself]
        show some (((k.goTo (.Signal c (some lock))).Signal c (some lock)).goTo _) = _
        rw [hsignal]
        simp [Kernel.goTo]
      · exact ⟨hidle, fun heq => by cases (hself _).symm.trans heq⟩
    have hnowait : ∀ k', ¬ StartsWait c k' .resume := by
      rintro k' ⟨l, hop, -⟩
      cases hop
    have hafter := (hloop.step (.inl (hself _)) htest (hnowait _)).step (.inr (hself _)) hbody
      (hnowait _)
    have hcur : ∀ pc, (k.goTo pc).currentThread = k.currentThread := fun _ => rfl
    rw [hcur, hcur, if_pos ⟨rfl, rfl⟩] at hafter
    exact ⟨_, hafter⟩

/-! ## When `Broadcast` is right -/

/-- **`Broadcast` is right exactly when it names the `waitingLock` or nobody waits.** -/
theorem broadcast_right_iff {main : ThreadId} {values : Nat → Int} {k k₁ : Kernel}
    (h : Reachable KernelStep (.init main values) k) {c lock : Nat}
    (hcall : KernelStep k (.call (.Broadcast c (some lock))) k₁) :
    BroadcastRight k c lock ↔
      (k.conditions c).queue = [] ∨ (k.conditions c).waitingLock = some lock := by
  have hsync : Synched k := h.invariant (synched_init main values) fun _ _ _ => synched_step
  obtain ⟨⟨hidle, huser, -⟩, -⟩ : (k.idle = false ∧ k.pc k.currentThread = .user ∧ _) ∧ _ := by
    simpa [KernelStep, Kernel.next] using hcall
  constructor
  · intro hright
    by_contra hneither
    obtain ⟨hqueue, hlock⟩ := not_or.mp hneither
    have hnone : (k.conditions c).waitingLock ≠ none := fun hn => hqueue ((hsync.conditions c).mp hn)
    obtain ⟨bound, hbound⟩ := hright.ends
    obtain ⟨woken, hloop⟩ := broadcast_spins hidle hqueue hnone hlock (bound + 1)
    have hle := hbound _ _ _ hloop
    omega
  · rintro (hqueue | hlock)
    · -- nobody waits: there is no loop
      have hnone := (hsync.conditions c).mpr hqueue
      have hkeep : k.Broadcast c (some lock) = k := if_pos hnone
      have hout : ¬ InLoop k.currentThread c (some lock) k := by
        rintro (hpc | hpc)
        · cases huser.symm.trans hpc
        · cases huser.symm.trans hpc
      have hstays : ∀ {n woken k'}, Loop k.currentThread c (some lock) k n woken k' →
          n = 0 ∧ woken = [] ∧ k' = k := by
        intro n woken k' hloop
        induction hloop with
        | start => exact ⟨rfl, rfl, rfl⟩
        | step _ hin _ _ ih =>
          rw [ih.2.2] at hin
          exact absurd hin hout
      refine ⟨⟨0, fun n woken k' hloop => ?_⟩, fun hlock => ?_, fun _ n woken k' hloop => ?_⟩
      · rw [hkeep] at hloop
        exact Nat.le_of_eq (hstays hloop).1
      · rw [hnone] at hlock
        cases hlock
      · rw [hkeep] at hloop
        obtain ⟨-, hw, hk'⟩ := hstays hloop
        exact ⟨hw, by rw [hk']⟩
    · have hinv := loopInv_Broadcast hsync hidle hlock
      refine ⟨⟨2 * (k.conditions c).queue.length + 1, fun n woken k' hloop => ?_⟩,
        fun _ n woken k' hloop hout => ?_, fun hother => absurd hlock hother⟩
      · have hsteps := (hinv.of_loop hloop).steps
        exact Nat.le_trans (Nat.le_add_right _ _) hsteps
      · have hend := hinv.of_loop hloop
        have hempty := hend.ended hout
        have hall : woken = (k.conditions c).queue := by
          have hqueue := hend.queue
          rw [hempty, List.append_nil] at hqueue
          exact hqueue.symm
        refine ⟨hall, ?_, hempty⟩
        rw [hall]
        exact hsync.placed.nodup (.condition c)

/-- Thread 1 waits on condition 5 with lock 0; the main thread then takes the lock. -/
def waitThenLock (lock : Nat) : List Op :=
  [.call (.Fork 1), .call .Yield, .call (.Acquire 0), .call (.Wait 5 (some 0)), .dispatch,
    .call (.Acquire lock)]

theorem broadcast_right_waitingLock : ∃ k, Reachable KernelStep (.init 0 fun _ => 0) k ∧
    (k.conditions 5).queue = [1] ∧ k.isHeldByCurrentThread 0 ∧ BroadcastRight k 5 0 := by
  have hrun : (Lib.execute Kernel.next (.init 0 fun _ => 0) (waitThenLock 0)).any (fun k =>
      decide ((k.conditions 5).queue = [1] ∧ k.isHeldByCurrentThread 0 ∧
        (k.conditions 5).waitingLock = some 0) &&
        (k.next (.call (.Broadcast 5 (some 0)))).isSome) = true := by
    decide +kernel
  obtain ⟨k, hk, hdec⟩ := (Option.any_eq_true _ _).mp hrun
  obtain ⟨hbefore, hcall⟩ := Bool.and_eq_true_iff.mp hdec
  obtain ⟨hqueue, hheld, hlock⟩ := of_decide_eq_true hbefore
  obtain ⟨k₁, hcall⟩ := Option.isSome_iff_exists.mp hcall
  have hreach : Reachable KernelStep (.init 0 fun _ => 0) k :=
    ⟨_, Lib.path_of_execute (fun _ _ _ => id) hk⟩
  exact ⟨k, hreach, hqueue, hheld, (broadcast_right_iff hreach hcall).mpr (.inr hlock)⟩

/-- The main thread holds lock 1, and broadcasts with it. -/
theorem broadcast_with_other_lock : ∃ k k₁, Reachable KernelStep (.init 0 fun _ => 0) k ∧
    KernelStep k (.call (.Broadcast 5 (some 1))) k₁ ∧ (k.conditions 5).queue = [1] ∧
    k.isHeldByCurrentThread 1 ∧ ¬ BroadcastRight k 5 1 := by
  have hrun : (Lib.execute Kernel.next (.init 0 fun _ => 0) (waitThenLock 1)).any (fun k =>
      decide ((k.conditions 5).queue = [1] ∧ k.isHeldByCurrentThread 1 ∧ k.idle = false ∧
        (k.conditions 5).waitingLock = some 0) &&
        (k.next (.call (.Broadcast 5 (some 1)))).isSome) = true := by
    decide +kernel
  obtain ⟨k, hk, hdec⟩ := (Option.any_eq_true _ _).mp hrun
  obtain ⟨hbefore, hcall⟩ := Bool.and_eq_true_iff.mp hdec
  obtain ⟨hqueue, hheld, hidle, hlock⟩ := of_decide_eq_true hbefore
  obtain ⟨k₁, hcall⟩ := Option.isSome_iff_exists.mp hcall
  have hreach : Reachable KernelStep (.init 0 fun _ => 0) k :=
    ⟨_, Lib.path_of_execute (fun _ _ _ => id) hk⟩
  refine ⟨k, k₁, hreach, hcall, hqueue, hheld, fun hright => ?_⟩
  obtain ⟨bound, hbound⟩ := hright.ends
  have hother : (k.conditions 5).waitingLock ≠ some 1 := by
    rw [hlock]
    simp
  obtain ⟨woken, hloop⟩ := broadcast_spins hidle (by rw [hqueue]; simp) (by rw [hlock]; simp)
    hother (bound + 1)
  have hle := hbound _ _ _ hloop
  omega

end Nachos.Threads

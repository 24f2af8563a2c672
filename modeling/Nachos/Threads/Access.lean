import Nachos.Lib.Path
import Nachos.Threads.Deletion

/-!
# Lock and condition syscalls of several processes

An entry of `lockTable` or `ConditionTable` keeps the address space of the process that
created it, and `Lock_Syscall_InputValidation` and `Condition_Syscall_InputValidation` refuse
an entry with another one. A handler that finds its arguments valid goes on as in one process.

`DestroyCondition_Syscall` calls neither. Its bad arguments have no effect exactly when they
name an entry that is marked already and stays busy; in every run without other bad calls of
it, no step of a process touches an entry of another (`bad_ids_rejected`).
-/

namespace Nachos.Threads

open Lib

/-- The kernel with the spaces: `space` has the one of each thread, `lockSpace` and
`conditionSpace` the one in each entry, by the entry's number. -/
structure Shared where
  tables : Tables
  space : ThreadId → Nat
  lockSpace : Nat → Nat := fun _ => 0
  conditionSpace : Nat → Nat := fun _ => 0

namespace Shared

variable (s : Shared)

/-- `currentThread->space`. -/
def currentSpace : Nat := s.space s.tables.kernel.currentThread

def Lock_Syscall_InputValidation (lock : Int) : Bool :=
  if lock < 0 ∨ lock ≥ lockTableSize then false
  else match s.tables.lockTable lock.toNat with
  | none => false
  | some lockEntry => decide (s.lockSpace lockEntry = s.currentSpace)

def Condition_Syscall_InputValidation (cond lock : Int) : Bool :=
  if s.Lock_Syscall_InputValidation lock = false then false
  else if cond < 0 ∨ cond ≥ ConditionTableSize then false
  else match s.tables.ConditionTable cond.toNat with
  | none => false
  | some condEntry => decide (s.conditionSpace condEntry = s.currentSpace)

/-- The handler goes on to `rest` when its arguments are valid, and returns when they are not. -/
def validated (valid : Bool) (rest : Option Tables) : Option Shared :=
  if valid then rest.map fun tables => { s with tables := tables } else some s

def CreateLock_Syscall : Shared :=
  match s.tables.lockTableBitMap.find with
  | (none, _) => s
  | (some _, _) =>
    { s with
      tables := s.tables.CreateLock_Syscall
      lockSpace := Function.update s.lockSpace s.tables.objects s.currentSpace }

def Acquire_Syscall (lock : Int) : Option Shared :=
  s.validated (s.Lock_Syscall_InputValidation lock) (s.tables.Acquire_Syscall lock)

def Release_Syscall (lock : Int) : Option Shared :=
  s.validated (s.Lock_Syscall_InputValidation lock) (s.tables.Release_Syscall lock)

def DestroyLock_Syscall (lock : Int) : Option Shared :=
  s.validated (s.Lock_Syscall_InputValidation lock) (s.tables.DestroyLock_Syscall lock)

def CreateCondition_Syscall : Shared :=
  match s.tables.ConditionTableBitMap.find with
  | (none, _) => s
  | (some _, _) =>
    { s with
      tables := s.tables.CreateCondition_Syscall
      conditionSpace := Function.update s.conditionSpace s.tables.objects s.currentSpace }

def Wait_Syscall (condition lock : Int) : Option Shared :=
  s.validated (s.Condition_Syscall_InputValidation condition lock)
    (s.tables.Wait_Syscall condition lock)

def Signal_Syscall (condition lock : Int) : Option Shared :=
  s.validated (s.Condition_Syscall_InputValidation condition lock)
    (s.tables.Signal_Syscall condition lock)

def Broadcast_Syscall (condition lock : Int) : Option Shared :=
  s.validated (s.Condition_Syscall_InputValidation condition lock)
    (s.tables.Broadcast_Syscall condition lock)

/-- The argument is not validated. -/
def DestroyCondition_Syscall (condition : Int) : Option Shared :=
  s.validated true (s.tables.DestroyCondition_Syscall condition)

def syscall : Syscall → Option Shared
  | .CreateLock => some s.CreateLock_Syscall
  | .Acquire lock => s.Acquire_Syscall lock
  | .Release lock => s.Release_Syscall lock
  | .DestroyLock lock => s.DestroyLock_Syscall lock
  | .CreateCondition => some s.CreateCondition_Syscall
  | .Wait condition lock => s.Wait_Syscall condition lock
  | .Signal condition lock => s.Signal_Syscall condition lock
  | .Broadcast condition lock => s.Broadcast_Syscall condition lock
  | .DestroyCondition condition => s.DestroyCondition_Syscall condition

/-- A forked thread gets its space, and is in no syscall. -/
def forked (thread : ThreadId) (space : Nat) : Shared :=
  { s with
    tables := { s.tables with checking := Function.update s.tables.checking thread none }
    space := Function.update s.space thread space }

end Shared

/-- The steps of the kernel with several processes. -/
inductive SharedOp where
  /-- The running program makes a syscall. -/
  | syscall (c : Syscall)
  /-- The running thread ends its syscall with the check. -/
  | check
  /-- Any other step; a thread it forks gets the space. -/
  | kernel (op : Op) (space : Nat)
  deriving DecidableEq, Repr

/-- One step; `none` where it is not possible. -/
def Shared.next (s : Shared) : SharedOp → Option Shared
  | .syscall c =>
    let t := s.tables.kernel.currentThread
    if s.tables.kernel.idle = false ∧ s.tables.kernel.pc t = .user ∧ s.tables.checking t = none then
      s.syscall c
    else none
  | .check => (s.tables.next .check).map fun tables => { s with tables := tables }
  | .kernel op space =>
    (s.tables.next (.kernel op)).map fun tables =>
      match op with
      | .call (.Fork thread) => { s with tables := tables }.forked thread space
      | _ => { s with tables := tables }

def SharedStep (s : Shared) (op : SharedOp) (s' : Shared) : Prop := s.next op = some s'

/-- Nothing has been created yet, and the main thread has its space. -/
def Shared.init (main : ThreadId) (values : Nat → Int) (space : ThreadId → Nat) : Shared where
  tables := .init main values
  space := space

/-! ## Bad arguments -/

namespace Shared

variable (s : Shared)

/-- Out of range, an empty slot, or an entry of another process. -/
def BadLock (lock : Int) : Prop :=
  lock < 0 ∨ lock ≥ lockTableSize ∨ s.tables.lockTable lock.toNat = none ∨
    ∃ le, s.tables.lockTable lock.toNat = some le ∧ s.lockSpace le ≠ s.currentSpace

def BadCondition (condition : Int) : Prop :=
  condition < 0 ∨ condition ≥ ConditionTableSize ∨
    s.tables.ConditionTable condition.toNat = none ∨
    ∃ ce, s.tables.ConditionTable condition.toNat = some ce ∧
      s.conditionSpace ce ≠ s.currentSpace

/-- One of the arguments is bad. -/
def Bad : Syscall → Prop
  | .CreateLock | .CreateCondition => False
  | .Acquire lock | .Release lock | .DestroyLock lock => s.BadLock lock
  | .Wait condition lock | .Signal condition lock | .Broadcast condition lock =>
    s.BadCondition condition ∨ s.BadLock lock
  | .DestroyCondition condition => s.BadCondition condition

/-- `DestroyCondition` finds an entry that is busy, and is marked already. -/
def Harmless : Syscall → Prop
  | .DestroyCondition condition =>
    0 ≤ condition ∧ condition < ConditionTableSize ∧
      ∃ ce, s.tables.ConditionTable condition.toNat = some ce ∧
        s.tables.conditionEntries ce = some { isToBeDeleted := true } ∧
        s.tables.kernel.conditionBusy ce = true
  | _ => True

variable {s}

theorem not_valid_iff {lock : Int} :
    s.Lock_Syscall_InputValidation lock = false ↔ s.BadLock lock := by
  unfold Lock_Syscall_InputValidation BadLock
  by_cases hrange : lock < 0 ∨ lock ≥ lockTableSize
  · rw [if_pos hrange]
    rcases hrange with h | h
    · simp [h]
    · simp [h]
  · rw [if_neg hrange]
    rw [not_or] at hrange
    cases hslot : s.tables.lockTable lock.toNat with
    | none => simp
    | some le => simp [hrange]

theorem not_valid_condition_iff {condition lock : Int} :
    s.Condition_Syscall_InputValidation condition lock = false ↔
      s.BadCondition condition ∨ s.BadLock lock := by
  unfold Condition_Syscall_InputValidation BadCondition
  rw [← not_valid_iff]
  by_cases hlock : s.Lock_Syscall_InputValidation lock = false
  · simp [hlock]
  rw [if_neg hlock]
  by_cases hrange : condition < 0 ∨ condition ≥ ConditionTableSize
  · rw [if_pos hrange]
    rcases hrange with h | h
    · simp [h]
    · simp [h]
  · rw [if_neg hrange]
    rw [not_or] at hrange
    cases hslot : s.tables.ConditionTable condition.toNat with
    | none => simp
    | some ce => simp [hrange, hlock]

theorem validated_false {valid : Bool} {rest : Option Tables} (h : valid = false) :
    s.validated valid rest = some s := by
  rw [h]
  rfl

/-- A bad `DestroyCondition` has no effect exactly where it is harmless. -/
theorem destroyCondition_iff {condition : Int} :
    s.DestroyCondition_Syscall condition = some s ↔ s.Harmless (.DestroyCondition condition) := by
  show (s.tables.DestroyCondition_Syscall condition).map _ = some s ↔ _
  unfold Tables.DestroyCondition_Syscall
  by_cases hrange : condition < 0 ∨ condition ≥ ConditionTableSize
  · rw [if_pos hrange]
    constructor
    · nofun
    · rintro ⟨hneg, hsize, -⟩
      omega
  rw [if_neg hrange]
  cases hslot : s.tables.ConditionTable condition.toNat with
  | none =>
    constructor
    · nofun
    · rintro ⟨-, -, ce, hce, -⟩
      cases hslot.symm.trans hce
  | some ce =>
    cases hentry : s.tables.conditionEntries ce with
    | none =>
      show (Option.map _ (Option.map _ (s.tables.conditionEntries ce))) = _ ↔ _
      rw [hentry]
      constructor
      · nofun
      · rintro ⟨-, -, ce', hce, hmarked, -⟩
        cases hslot.symm.trans hce
        cases hentry.symm.trans hmarked
    | some a =>
      show (Option.map _ (Option.map _ (s.tables.conditionEntries ce))) = _ ↔ _
      rw [hentry]
      constructor
      · intro hsame
        have htables : (if s.tables.kernel.conditionBusy ce then
            { s.tables with conditionEntries :=
                Function.update s.tables.conditionEntries ce (some { isToBeDeleted := true }) }
          else s.tables.deleteCondition condition.toNat ce) = s.tables :=
          congrArg tables (Option.some.inj hsame)
        by_cases hbusy : s.tables.kernel.conditionBusy ce = true
        · rw [if_pos hbusy] at htables
          refine ⟨by omega, by omega, ce, hslot, ?_, hbusy⟩
          -- the entry is what the mark made it
          rw [← htables]
          exact Function.update_self _ _ _
        · rw [if_neg hbusy] at htables
          have hgone : s.tables.ConditionTable condition.toNat = none := by
            rw [← htables]
            exact Function.update_self _ _ _
          cases hslot.symm.trans hgone
      · rintro ⟨-, -, ce', hce, hmarked, hbusy⟩
        cases hslot.symm.trans hce
        have hsame : Function.update s.tables.conditionEntries ce (some { isToBeDeleted := true }) =
            s.tables.conditionEntries := by
          rw [← hmarked]
          exact Function.update_eq_self _ _
        simp only [Option.map_some, hbusy, if_true, hsame]

/-- **A call with a bad argument has no effect**, unless it is a `DestroyCondition` that is not
harmless. -/
theorem syscall_bad {c : Syscall} (hbad : s.Bad c) : s.syscall c = some s ↔ s.Harmless c := by
  cases c with
  | CreateLock => exact hbad.elim
  | CreateCondition => exact hbad.elim
  | Acquire lock => exact iff_of_true (validated_false (not_valid_iff.mpr hbad)) trivial
  | Release lock => exact iff_of_true (validated_false (not_valid_iff.mpr hbad)) trivial
  | DestroyLock lock => exact iff_of_true (validated_false (not_valid_iff.mpr hbad)) trivial
  | Wait condition lock =>
    exact iff_of_true (validated_false (not_valid_condition_iff.mpr hbad)) trivial
  | Signal condition lock =>
    exact iff_of_true (validated_false (not_valid_condition_iff.mpr hbad)) trivial
  | Broadcast condition lock =>
    exact iff_of_true (validated_false (not_valid_condition_iff.mpr hbad)) trivial
  | DestroyCondition condition => exact destroyCondition_iff

end Shared

/-! ## What a step of the kernel touches -/

/-- A thread at that point goes on with locks in `L` and conditions in `C` only. -/
def PC.Within (L C : Nat → Prop) : PC → Prop
  | .user | .P _ => True
  | .Acquire lock => L lock
  | .Wait condition lock => C condition ∧ L lock
  | .Broadcast condition _ | .Signal condition _ => C condition

theorem PC.Within.mono {L L' C C' : Nat → Prop} (hL : ∀ l, L l → L' l) (hC : ∀ c, C c → C' c)
    {pc : PC} (h : pc.Within L C) : pc.Within L' C' := by
  cases pc with
  | user => trivial
  | P s => trivial
  | Acquire l => exact hL l h
  | Wait c l => exact ⟨hC c h.1, hL l h.2⟩
  | Broadcast c _ => exact hC c h
  | Signal c _ => exact hC c h

/-- Only locks in `L` and conditions in `C` have changed, and the running thread goes on with
such ones. -/
structure Within (L C : Nat → Prop) (k k' : Kernel) : Prop where
  locks : ∀ l, ¬ L l → k'.locks l = k.locks l
  conditions : ∀ c, ¬ C c → k'.conditions c = k.conditions c
  pc : ∀ t, k'.pc t = k.pc t ∨ k'.pc t = .user ∨ t = k.currentThread ∧ (k'.pc t).Within L C

namespace Within

variable {L C : Nat → Prop} {k k₁ k₂ : Kernel} {l c : Nat}

theorem of_eq (hlocks : k₁.locks = k.locks) (hconditions : k₁.conditions = k.conditions)
    (hpc : k₁.pc = k.pc) : Within L C k k₁ :=
  ⟨fun l _ => congrFun hlocks l, fun c _ => congrFun hconditions c,
    fun t => .inl (congrFun hpc t)⟩

theorem trans (h₁ : Within L C k k₁) (h₂ : Within L C k₁ k₂)
    (hcur : k₁.currentThread = k.currentThread) : Within L C k k₂ where
  locks l hl := (h₂.locks l hl).trans (h₁.locks l hl)
  conditions c hc := (h₂.conditions c hc).trans (h₁.conditions c hc)
  pc t := by
    rcases h₂.pc t with hsame | huser | ⟨ht, hwithin⟩
    · rw [hsame]
      exact h₁.pc t
    · exact .inr (.inl huser)
    · exact .inr (.inr ⟨ht.trans hcur, hwithin⟩)

theorem goTo {p : PC} (hpc : p.Within L C) : Within L C k (k.goTo p) where
  locks _ _ := rfl
  conditions _ _ := rfl
  pc t := by
    by_cases ht : t = k.currentThread
    · have hself : (k.goTo p).pc t = p := by
        rw [ht]
        exact Function.update_self _ _ _
      rw [hself]
      exact .inr (.inr ⟨ht, hpc⟩)
    · exact .inl (Function.update_of_ne ht _ _)

theorem setLock (hl : L l) (a : Lock) : Within L C k (k.setLock l a) where
  locks _ hl' := k.setLock_of_ne a fun heq => hl' (heq ▸ hl)
  conditions _ _ := rfl
  pc _ := .inl rfl

theorem setCondition (hc : C c) (a : Condition) : Within L C k (k.setCondition c a) where
  locks _ _ := rfl
  conditions c' hc' := Function.update_of_ne (a := c') (fun heq => hc' (heq.symm ▸ hc)) _ _
  pc _ := .inl rfl

theorem acquired (l : Nat) : Within L C k (k.acquired l) :=
  (of_eq rfl rfl rfl : Within L C k (k.setInside l true)).trans (goTo (p := .user) trivial) rfl

theorem P (s : Nat) : Within L C k (k.P s) := by
  unfold Kernel.P
  dsimp only
  split
  · exact (goTo (p := .P s) trivial).trans (of_eq rfl rfl rfl) rfl
  · exact (goTo (p := .user) trivial).trans (of_eq rfl rfl rfl) rfl

theorem V (s : Nat) : Within L C k (k.V s) := by
  unfold Kernel.V
  dsimp only
  split
  · exact of_eq rfl rfl rfl
  · exact of_eq rfl rfl rfl

theorem Yield : Within L C k k.Yield := by
  unfold Kernel.Yield
  split
  · exact of_eq rfl rfl rfl
  · exact of_eq rfl rfl rfl

theorem Fork (thread : ThreadId) : Within L C k (k.Fork thread) where
  locks _ _ := rfl
  conditions _ _ := rfl
  pc t := by
    by_cases ht : t = thread
    · rw [ht]
      exact .inr (.inl (Function.update_self _ _ _))
    · exact .inl (Function.update_of_ne ht _ _)

theorem dispatch (hnext : k.dispatch = some k₁) : Within L C k k₁ := by
  unfold Kernel.dispatch at hnext
  split at hnext
  · cases hnext
  · cases hnext
    exact of_eq rfl rfl rfl

theorem Acquire (hl : L l) : Within L C k (k.Acquire l) := by
  unfold Kernel.Acquire
  dsimp only
  split
  · exact acquired l
  · split
    · exact (setLock hl _).trans (acquired l) rfl
    · exact ((setLock hl _).trans (goTo (p := .Acquire l) hl) rfl).trans
        (of_eq rfl rfl rfl) rfl

theorem Release (hl : L l) : Within L C k (k.Release l) := by
  by_cases hheld : k.isHeldByCurrentThread l
  · have hinside : Within L C k (k.setInside l false) := of_eq rfl rfl rfl
    cases hq : (k.locks l).queue with
    | nil =>
      rw [Kernel.Release_nil hheld hq]
      exact hinside.trans (setLock hl _) rfl
    | cons t rest =>
      rw [Kernel.Release_cons hheld hq]
      exact (hinside.trans (setLock hl _) rfl).trans (of_eq rfl rfl rfl) rfl
  · rw [Kernel.Release_of_not_held hheld]
    exact of_eq rfl rfl rfl

theorem Wait (hc : C c) (hl : L l) : Within L C k (k.Wait c (some l)) := by
  unfold Kernel.Wait
  dsimp only
  split
  · exact of_eq rfl rfl rfl
  · rename_i heq
    rw [← not_not.mp heq]
    have hset := setCondition (L := L) (k := k) hc
      { k.conditions c with
        waitingLock := some l
        queue := (k.conditions c).queue ++ [k.currentThread] }
    have hrelease := hset.trans (Release hl) rfl
    have hgo := hrelease.trans (goTo (p := .Wait c l) ⟨hc, hl⟩) (Kernel.currentThread_Release _ l)
    exact hgo.trans (of_eq rfl rfl rfl) (Kernel.currentThread_Release _ l)

theorem Signal (hc : C c) (conditionLock : Option Nat) :
    Within L C k (k.Signal c conditionLock) := by
  unfold Kernel.Signal
  dsimp only
  split
  · exact of_eq rfl rfl rfl
  · split
    · exact of_eq rfl rfl rfl
    · have hready : ∀ (k : Kernel) t, Within L C k (k.ReadyToRun t) := by
        intro k t
        cases t with
        | none => exact of_eq rfl rfl rfl
        | some t => exact of_eq rfl rfl rfl
      exact (setCondition hc _).trans (hready _ _) rfl

theorem Broadcast (hc : C c) (conditionLock : Option Nat) :
    Within L C k (k.Broadcast c conditionLock) := by
  unfold Kernel.Broadcast
  split
  · exact of_eq rfl rfl rfl
  · exact goTo (p := .Broadcast c conditionLock) hc

theorem resume (hpc : (k.pc k.currentThread).Within L C) :
    Within L C k (k.resume (k.pc k.currentThread)) := by
  cases hat : k.pc k.currentThread with
  | user => exact of_eq rfl rfl rfl
  | P s => exact P s
  | Acquire l => exact acquired l
  | Wait c l =>
    rw [hat] at hpc
    exact Acquire hpc.2
  | Broadcast c conditionLock =>
    rw [hat] at hpc
    show Within L C k (if (k.conditions c).queue = [] then k.goTo .user
      else k.goTo (.Signal c conditionLock))
    split
    · exact goTo (p := .user) trivial
    · exact goTo (p := .Signal c conditionLock) hpc
  | Signal c conditionLock =>
    rw [hat] at hpc
    exact (Signal hpc conditionLock).trans (goTo (p := .Broadcast c conditionLock) hpc)
      (Kernel.currentThread_Signal k c conditionLock)

/-- A step that is no step of a handler touches what the running thread goes on with. -/
theorem kernelStep {s : Tables} {op : Op} {kernel : Kernel} (hpossible : s.possible op = true)
    (hnext : s.kernel.next op = some kernel)
    (hpc : (s.kernel.pc s.kernel.currentThread).Within L C) : Within L C s.kernel kernel := by
  unfold Kernel.next at hnext
  cases op with
  | call c =>
    obtain ⟨-, rfl⟩ := by simpa using hnext
    cases c with
    | P s => exact P s
    | V s => exact V s
    | Yield => exact Yield
    | Fork t => exact Fork t
    | Finish => exact of_eq rfl rfl rfl
    | _ => simp [Tables.possible, Call.outside] at hpossible
  | resume =>
    obtain ⟨-, rfl⟩ := by simpa using hnext
    exact resume hpc
  | dispatch =>
    obtain ⟨-, hdispatch⟩ := by simpa using hnext
    exact dispatch hdispatch
  | interrupt semaphore =>
    obtain ⟨-, rfl⟩ := by simpa using hnext
    exact V semaphore
  | timer =>
    obtain ⟨-, rfl⟩ := by simpa using hnext
    exact Yield

end Within

/-! ## The tables -/

/-- The slots in use have their bits set, and have different objects, made before. -/
structure Filed (bits : BitMap) (table : Nat → Option Nat) (objects : Nat) : Prop where
  marked : ∀ i o, table i = some o → bits.test i = true
  once : ∀ i j o, table i = some o → table j = some o → i = j
  old : ∀ i o, table i = some o → o < objects

namespace Filed

variable {bits bits' : BitMap} {table : Nat → Option Nat} {objects i : Nat}

theorem later (h : Filed bits table objects) : Filed bits table (objects + 1) :=
  ⟨h.marked, h.once, fun i o ho => Nat.lt_succ_of_lt (h.old i o ho)⟩

/-- A slot whose bit is clear is not in use. -/
theorem free (h : Filed bits table objects) (hi : bits.test i = false) : table i = none := by
  cases hslot : table i with
  | none => rfl
  | some o => cases hi.symm.trans (h.marked i o hslot)

theorem create (h : Filed bits table objects) (hfind : bits.find = (some i, bits')) :
    Filed bits' (Function.update table i (some objects)) (objects + 1) := by
  obtain ⟨-, -, -, rfl⟩ := BitMap.find_some hfind
  have hcases : ∀ j o, Function.update table i (some objects) j = some o →
      j = i ∧ o = objects ∨ j ≠ i ∧ table j = some o := by
    intro j o ho
    by_cases hj : j = i
    · rw [hj, Function.update_self] at ho
      cases ho
      exact .inl ⟨hj, rfl⟩
    · rw [Function.update_of_ne hj] at ho
      exact .inr ⟨hj, ho⟩
  refine ⟨fun j o ho => ?_, fun j j' o ho ho' => ?_, fun j o ho => ?_⟩
  · rw [BitMap.test_mark]
    rcases hcases j o ho with ⟨hj, -⟩ | ⟨hj, ho⟩
    · rw [if_pos hj]
    · rw [if_neg hj]
      exact h.marked j o ho
  · rcases hcases j o ho with ⟨hj, heq⟩ | ⟨-, hold⟩
    · rcases hcases j' o ho' with ⟨hj', -⟩ | ⟨-, hold⟩
      · exact hj.trans hj'.symm
      · have hlt := h.old j' o hold
        omega
    · rcases hcases j' o ho' with ⟨-, heq⟩ | ⟨-, hold'⟩
      · have hlt := h.old j o hold
        omega
      · exact h.once j j' o hold hold'
  · rcases hcases j o ho with ⟨-, heq⟩ | ⟨-, ho⟩
    · omega
    · exact Nat.lt_succ_of_lt (h.old j o ho)

theorem delete (h : Filed bits table objects) (i : Nat) :
    Filed (bits.clear i) (Function.update table i none) objects := by
  have hkept : ∀ j o, Function.update table i none j = some o → j ≠ i ∧ table j = some o := by
    intro j o ho
    by_cases hj : j = i
    · rw [hj, Function.update_self] at ho
      cases ho
    · rw [Function.update_of_ne hj] at ho
      exact ⟨hj, ho⟩
  refine ⟨fun j o ho => ?_, fun j j' o ho ho' => ?_, fun j o ho => h.old j o (hkept j o ho).2⟩
  · rw [BitMap.test_clear, if_neg (hkept j o ho).1]
    exact h.marked j o (hkept j o ho).2
  · exact h.once j j' o (hkept j o ho).2 (hkept j' o ho').2

section Entries

variable {E : Type} {entries : Nat → Option E} {j o o' : Nat}

/-- Another object is still where it was when one is deleted. -/
theorem delete_other (bits : BitMap) (entries : Nat → Option E) (hi : table i = some o) (hj : table j = some o') (hne : o' ≠ o) :
    Function.update table i none j = table j ∧ (bits.clear i).test j = bits.test j ∧
      Function.update entries o none o' = entries o' := by
  have hij : j ≠ i := by
    intro heq
    rw [heq, hi] at hj
    exact hne (Option.some.inj hj).symm
  refine ⟨Function.update_of_ne hij _ _, ?_, Function.update_of_ne hne _ _⟩
  rw [BitMap.test_clear, if_neg hij]

theorem delete_named (hi : table i = some o)
    (hnamed : (entries o').isSome = true → table j = some o')
    (hsome : (Function.update entries o none o').isSome = true) :
    Function.update table i none j = some o' := by
  by_cases hne : o' = o
  · rw [hne, Function.update_self] at hsome
    cases hsome
  · have hsame : Function.update entries o none o' = entries o' := Function.update_of_ne hne _ _
    have hj := hnamed (hsame ▸ hsome)
    have hij : j ≠ i := by
      intro heq
      rw [heq, hi] at hj
      exact hne (Option.some.inj hj).symm
    rw [Function.update_of_ne hij]
    exact hj

/-- The objects there are still where they were when one is created. -/
theorem create_other (h : Filed bits table objects) (hfind : bits.find = (some i, bits'))
    (hj : table j = some o) (entries : Nat → Option E) (e : E) :
    Function.update table i (some objects) j = table j ∧ bits'.test j = bits.test j ∧
      Function.update entries objects (some e) o = entries o := by
  obtain ⟨-, hclear, -, rfl⟩ := BitMap.find_some hfind
  have hij : j ≠ i := by
    intro heq
    rw [heq, h.free hclear] at hj
    cases hj
  have ho : o ≠ objects := by
    have hlt := h.old j o hj
    omega
  refine ⟨Function.update_of_ne hij _ _, ?_, Function.update_of_ne ho _ _⟩
  rw [BitMap.test_mark, if_neg hij]

theorem create_named (h : Filed bits table objects) (hfind : bits.find = (some i, bits')) {e : E}
    (ho : o < objects) (hnamed : (entries o).isSome = true → table j = some o)
    (hsome : (Function.update entries objects (some e) o).isSome = true) :
    Function.update table i (some objects) j = some o := by
  have hsame : Function.update entries objects (some e) o = entries o :=
    Function.update_of_ne (by omega) _ _
  have hj := hnamed (hsame ▸ hsome)
  rw [(h.create_other hfind hj entries e).1]
  exact hj

end Entries

end Filed

namespace Shared

variable (s : Shared)

/-- A lock of that process, which has been created. -/
def OwnLock (space lock : Nat) : Prop := lock < s.tables.objects ∧ s.lockSpace lock = space

def OwnCondition (space condition : Nat) : Prop :=
  condition < s.tables.objects ∧ s.conditionSpace condition = space

/-- The check is about an object of that process, which is in its slot if it was not deleted. -/
def OwnCheck (space : Nat) : Check → Prop
  | .lock index le => s.OwnLock space le ∧
      ((s.tables.lockEntries le).isSome = true → s.tables.lockTable index = some le)
  | .condition index ce => s.OwnCondition space ce ∧
      ((s.tables.conditionEntries ce).isSome = true → s.tables.ConditionTable index = some ce)

/-- What a slot of the lock table is, with the entry and the `Lock`. -/
def lockSlot (index le : Nat) : Option Nat × Bool × Nat × Option LockTableEntry × Lock :=
  (s.tables.lockTable index, s.tables.lockTableBitMap.test index, s.lockSpace le,
    s.tables.lockEntries le, s.tables.kernel.locks le)

def conditionSlot (index ce : Nat) :
    Option Nat × Bool × Nat × Option ConditionTableEntry × Condition :=
  (s.tables.ConditionTable index, s.tables.ConditionTableBitMap.test index, s.conditionSpace ce,
    s.tables.conditionEntries ce, s.tables.kernel.conditions ce)

/-- The tables are in order, and a thread goes on with objects of its own process only. -/
structure Guarded : Prop where
  locks : Filed s.tables.lockTableBitMap s.tables.lockTable s.tables.objects
  conditions : Filed s.tables.ConditionTableBitMap s.tables.ConditionTable s.tables.objects
  pcs : ∀ t, (s.tables.kernel.pc t).Within (s.OwnLock (s.space t)) (s.OwnCondition (s.space t))
  checks : ∀ t check, s.tables.checking t = some check → s.OwnCheck (s.space t) check

/-- No entry of another process than `space` has changed, nor its slot, nor its object. -/
structure Private (space : Nat) (s s' : Shared) : Prop where
  locks : ∀ i le, s.tables.lockTable i = some le → s.lockSpace le ≠ space →
    s'.lockSlot i le = s.lockSlot i le
  conditions : ∀ i ce, s.tables.ConditionTable i = some ce → s.conditionSpace ce ≠ space →
    s'.conditionSlot i ce = s.conditionSlot i ce

variable {s}

theorem lockSlot_eq {s' : Shared} {i le : Nat}
    (htable : s'.tables.lockTable i = s.tables.lockTable i)
    (hbit : s'.tables.lockTableBitMap.test i = s.tables.lockTableBitMap.test i)
    (hspace : s'.lockSpace le = s.lockSpace le)
    (hentry : s'.tables.lockEntries le = s.tables.lockEntries le)
    (hlock : s'.tables.kernel.locks le = s.tables.kernel.locks le) :
    s'.lockSlot i le = s.lockSlot i le := by
  unfold lockSlot
  rw [htable, hbit, hspace, hentry, hlock]

theorem conditionSlot_eq {s' : Shared} {i ce : Nat}
    (htable : s'.tables.ConditionTable i = s.tables.ConditionTable i)
    (hbit : s'.tables.ConditionTableBitMap.test i = s.tables.ConditionTableBitMap.test i)
    (hspace : s'.conditionSpace ce = s.conditionSpace ce)
    (hentry : s'.tables.conditionEntries ce = s.tables.conditionEntries ce)
    (hcondition : s'.tables.kernel.conditions ce = s.tables.kernel.conditions ce) :
    s'.conditionSlot i ce = s.conditionSlot i ce := by
  unfold conditionSlot
  rw [htable, hbit, hspace, hentry, hcondition]

theorem Private.refl (space : Nat) (s : Shared) : Private space s s :=
  ⟨fun _ _ _ _ => rfl, fun _ _ _ _ => rfl⟩

theorem guarded_init (main : ThreadId) (values : Nat → Int) (space : ThreadId → Nat) :
    (init main values space).Guarded where
  locks := ⟨nofun, nofun, nofun⟩
  conditions := ⟨nofun, nofun, nofun⟩
  pcs _ := trivial
  checks := nofun

/-- The kernel moves on with objects of the running thread's process, and checks are noted. -/
theorem Guarded.kernelStep (h : s.Guarded) {kernel : Kernel}
    (hwithin : Within (s.OwnLock s.currentSpace) (s.OwnCondition s.currentSpace) s.tables.kernel
      kernel)
    {checking : ThreadId → Option Check}
    (hchecks : ∀ t check, checking t = some check → s.OwnCheck (s.space t) check) :
    let s' := { s with tables := { s.tables with kernel := kernel, checking := checking } }
    s'.Guarded ∧ Private s.currentSpace s s' := by
  refine ⟨⟨h.locks, h.conditions, fun t => ?_, hchecks⟩, fun i le _ hspace => ?_,
    fun i ce _ hspace => ?_⟩
  · show (kernel.pc t).Within _ _
    rcases hwithin.pc t with hsame | huser | ⟨ht, hpc⟩
    · rw [hsame]
      exact h.pcs t
    · rw [huser]
      trivial
    · rw [ht] at hpc ⊢
      exact hpc
  · have hlock := hwithin.locks le fun hown => hspace hown.2
    unfold lockSlot
    rw [hlock]
  · have hcondition := hwithin.conditions ce fun hown => hspace hown.2
    unfold conditionSlot
    rw [hcondition]

/-- The running thread notes a check on an object of its process. -/
theorem Guarded.setChecking (h : s.Guarded) {check : Option Check}
    (hcheck : ∀ c, check = some c → s.OwnCheck s.currentSpace c) :
    ∀ t c, (s.tables.setChecking check).checking t = some c → s.OwnCheck (s.space t) c := by
  intro t c hc
  by_cases ht : t = s.tables.kernel.currentThread
  · have hself : (s.tables.setChecking check).checking t = check := by
      rw [ht]
      exact Function.update_self _ _ _
    rw [ht]
    exact hcheck c (hself.symm.trans hc)
  · have hother : (s.tables.setChecking check).checking t = s.tables.checking t :=
      Function.update_of_ne ht _ _
    exact h.checks t c (hother.symm.trans hc)

/-! ### Locks -/

theorem Guarded.deleteLock (h : s.Guarded) {i le : Nat} (hslot : s.tables.lockTable i = some le)
    (hown : s.OwnLock s.currentSpace le) :
    let s' := { s with tables := s.tables.deleteLock i le }
    s'.Guarded ∧ Private s.currentSpace s s' := by
  refine ⟨⟨h.locks.delete i, h.conditions, h.pcs, fun t check hcheck => ?_⟩,
    fun j le' hj hspace => ?_, fun _ _ _ _ => rfl⟩
  · have hwas := h.checks t check hcheck
    cases check with
    | lock j le' =>
      exact ⟨hwas.1, Filed.delete_named hslot hwas.2⟩
    | condition j ce => exact hwas
  · have hne : le' ≠ le := by
      rintro rfl
      exact hspace hown.2
    obtain ⟨htable, hbit, hentry⟩ :=
      Filed.delete_other s.tables.lockTableBitMap s.tables.lockEntries hslot hj hne
    exact lockSlot_eq htable hbit rfl hentry rfl

theorem Guarded.markLock (h : s.Guarded) {le : Nat}
    (hentry : (s.tables.lockEntries le).isSome = true) (hown : s.OwnLock s.currentSpace le)
    (b : LockTableEntry) :
    let s' := { s with tables := { s.tables with
      lockEntries := Function.update s.tables.lockEntries le (some b) } }
    s'.Guarded ∧ Private s.currentSpace s s' := by
  refine ⟨⟨h.locks, h.conditions, h.pcs, fun t check hcheck => ?_⟩,
    fun j le' hj hspace => ?_, fun _ _ _ _ => rfl⟩
  · have hwas := h.checks t check hcheck
    cases check with
    | lock j le' =>
      refine ⟨hwas.1, fun hsome => hwas.2 ?_⟩
      by_cases heq : le' = le
      · rw [heq]
        exact hentry
      · have hother : Function.update s.tables.lockEntries le (some b) le' =
            s.tables.lockEntries le' := Function.update_of_ne heq _ _
        rw [← hother]
        exact hsome
    | condition j ce => exact hwas
  · have hne : le' ≠ le := by
      rintro rfl
      exact hspace hown.2
    exact lockSlot_eq rfl rfl rfl (Function.update_of_ne hne _ _) rfl

theorem Guarded.CreateLock (h : s.Guarded) :
    s.CreateLock_Syscall.Guarded ∧ Private s.currentSpace s s.CreateLock_Syscall := by
  cases hfind : s.tables.lockTableBitMap.find with
  | mk found bits =>
    cases found with
    | none =>
      have hsame : s.CreateLock_Syscall = s := by
        unfold CreateLock_Syscall
        rw [hfind]
      rw [hsame]
      exact ⟨h, .refl _ s⟩
    | some i =>
      have hs' : s.CreateLock_Syscall = { s with
          tables := { s.tables with
            kernel := s.tables.kernel.setLock s.tables.objects {}
            lockTableBitMap := bits
            lockTable := Function.update s.tables.lockTable i (some s.tables.objects)
            lockEntries := Function.update s.tables.lockEntries s.tables.objects (some {})
            objects := s.tables.objects + 1 }
          lockSpace := Function.update s.lockSpace s.tables.objects s.currentSpace } := by
        unfold CreateLock_Syscall Tables.CreateLock_Syscall
        rw [hfind]
      rw [hs']
      -- an object made before is in the process it was in
      have hlock : ∀ {space le}, s.OwnLock space le → le < s.tables.objects + 1 ∧
          Function.update s.lockSpace s.tables.objects s.currentSpace le = space := by
        rintro space le ⟨hlt, hspace⟩
        refine ⟨by omega, ?_⟩
        rw [Function.update_of_ne (by omega), hspace]
      have hcondition : ∀ {space ce}, s.OwnCondition space ce →
          ce < s.tables.objects + 1 ∧ s.conditionSpace ce = space := by
        rintro space ce ⟨hlt, hspace⟩
        exact ⟨by omega, hspace⟩
      refine ⟨⟨h.locks.create hfind, h.conditions.later, fun t => ?_, fun t check hcheck => ?_⟩,
        fun j le hj hspace => ?_, fun _ _ _ _ => rfl⟩
      · exact (h.pcs t).mono (fun _ => hlock) fun _ => hcondition
      · have hwas := h.checks t check hcheck
        cases check with
        | lock j le =>
          exact ⟨hlock hwas.1, h.locks.create_named hfind hwas.1.1 hwas.2⟩
        | condition j ce => exact ⟨hcondition hwas.1, hwas.2⟩
      · have hlt := h.locks.old j le hj
        obtain ⟨htable, hbit, hentry⟩ :=
          h.locks.create_other hfind hj s.tables.lockEntries {}
        have hne : le ≠ s.tables.objects := by omega
        exact lockSlot_eq htable hbit (Function.update_of_ne hne _ _) hentry
          (Kernel.setLock_of_ne _ _ hne)

/-! ### Conditions -/

theorem Guarded.deleteCondition (h : s.Guarded) {i ce : Nat}
    (hslot : s.tables.ConditionTable i = some ce) (hown : s.OwnCondition s.currentSpace ce) :
    let s' := { s with tables := s.tables.deleteCondition i ce }
    s'.Guarded ∧ Private s.currentSpace s s' := by
  refine ⟨⟨h.locks, h.conditions.delete i, h.pcs, fun t check hcheck => ?_⟩,
    fun _ _ _ _ => rfl, fun j ce' hj hspace => ?_⟩
  · have hwas := h.checks t check hcheck
    cases check with
    | lock j le => exact hwas
    | condition j ce' => exact ⟨hwas.1, Filed.delete_named hslot hwas.2⟩
  · have hne : ce' ≠ ce := by
      rintro rfl
      exact hspace hown.2
    obtain ⟨htable, hbit, hentry⟩ :=
      Filed.delete_other s.tables.ConditionTableBitMap s.tables.conditionEntries hslot hj hne
    exact conditionSlot_eq htable hbit rfl hentry rfl

theorem Guarded.markCondition (h : s.Guarded) {ce : Nat}
    (hentry : (s.tables.conditionEntries ce).isSome = true)
    (hown : s.OwnCondition s.currentSpace ce) (b : ConditionTableEntry) :
    let s' := { s with tables := { s.tables with
      conditionEntries := Function.update s.tables.conditionEntries ce (some b) } }
    s'.Guarded ∧ Private s.currentSpace s s' := by
  refine ⟨⟨h.locks, h.conditions, h.pcs, fun t check hcheck => ?_⟩,
    fun _ _ _ _ => rfl, fun j ce' hj hspace => ?_⟩
  · have hwas := h.checks t check hcheck
    cases check with
    | lock j le => exact hwas
    | condition j ce' =>
      refine ⟨hwas.1, fun hsome => hwas.2 ?_⟩
      by_cases heq : ce' = ce
      · rw [heq]
        exact hentry
      · have hother : Function.update s.tables.conditionEntries ce (some b) ce' =
            s.tables.conditionEntries ce' := Function.update_of_ne heq _ _
        rw [← hother]
        exact hsome
  · have hne : ce' ≠ ce := by
      rintro rfl
      exact hspace hown.2
    exact conditionSlot_eq rfl rfl rfl (Function.update_of_ne hne _ _) rfl

theorem Guarded.CreateCondition (h : s.Guarded) :
    s.CreateCondition_Syscall.Guarded ∧ Private s.currentSpace s s.CreateCondition_Syscall := by
  cases hfind : s.tables.ConditionTableBitMap.find with
  | mk found bits =>
    cases found with
    | none =>
      have hsame : s.CreateCondition_Syscall = s := by
        unfold CreateCondition_Syscall
        rw [hfind]
      rw [hsame]
      exact ⟨h, .refl _ s⟩
    | some i =>
      have hs' : s.CreateCondition_Syscall = { s with
          tables := { s.tables with
            kernel := s.tables.kernel.setCondition s.tables.objects {}
            ConditionTableBitMap := bits
            ConditionTable := Function.update s.tables.ConditionTable i (some s.tables.objects)
            conditionEntries :=
              Function.update s.tables.conditionEntries s.tables.objects (some {})
            objects := s.tables.objects + 1 }
          conditionSpace :=
            Function.update s.conditionSpace s.tables.objects s.currentSpace } := by
        unfold CreateCondition_Syscall Tables.CreateCondition_Syscall
        rw [hfind]
      rw [hs']
      have hlock : ∀ {space le}, s.OwnLock space le →
          le < s.tables.objects + 1 ∧ s.lockSpace le = space := by
        rintro space le ⟨hlt, hspace⟩
        exact ⟨by omega, hspace⟩
      have hcondition : ∀ {space ce}, s.OwnCondition space ce → ce < s.tables.objects + 1 ∧
          Function.update s.conditionSpace s.tables.objects s.currentSpace ce = space := by
        rintro space ce ⟨hlt, hspace⟩
        refine ⟨by omega, ?_⟩
        rw [Function.update_of_ne (by omega), hspace]
      refine ⟨⟨h.locks.later, h.conditions.create hfind, fun t => ?_, fun t check hcheck => ?_⟩,
        fun _ _ _ _ => rfl, fun j ce hj hspace => ?_⟩
      · exact (h.pcs t).mono (fun _ => hlock) fun _ => hcondition
      · have hwas := h.checks t check hcheck
        cases check with
        | lock j le => exact ⟨hlock hwas.1, hwas.2⟩
        | condition j ce =>
          exact ⟨hcondition hwas.1, h.conditions.create_named hfind hwas.1.1 hwas.2⟩
      · have hlt := h.conditions.old j ce hj
        obtain ⟨htable, hbit, hentry⟩ :=
          h.conditions.create_other hfind hj s.tables.conditionEntries {}
        have hne : ce ≠ s.tables.objects := by omega
        exact conditionSlot_eq htable hbit (Function.update_of_ne hne _ _) hentry
          (Kernel.setCondition_other _ _ hne)

/-! ### Syscalls -/

theorem own_of_valid (h : s.Guarded) {lock : Int} {le : Nat} (hbad : ¬ s.BadLock lock)
    (hvalid : s.tables.Lock_Syscall_InputValidation lock = some le) :
    s.tables.lockTable lock.toNat = some le ∧ s.OwnLock s.currentSpace le := by
  unfold Tables.Lock_Syscall_InputValidation at hvalid
  split at hvalid
  · cases hvalid
  · refine ⟨hvalid, h.locks.old _ le hvalid, ?_⟩
    by_contra hspace
    exact hbad (.inr (.inr (.inr ⟨le, hvalid, hspace⟩)))

theorem own_of_valid_condition (h : s.Guarded) {condition lock : Int} {ce le : Nat}
    (hcondition : ¬ s.BadCondition condition) (hlock : ¬ s.BadLock lock)
    (hvalid : s.tables.Condition_Syscall_InputValidation condition lock = some (ce, le)) :
    s.tables.ConditionTable condition.toNat = some ce ∧ s.OwnCondition s.currentSpace ce ∧
      s.OwnLock s.currentSpace le := by
  unfold Tables.Condition_Syscall_InputValidation at hvalid
  cases hle : s.tables.Lock_Syscall_InputValidation lock with
  | none =>
    rw [hle] at hvalid
    cases hvalid
  | some le' =>
    rw [hle] at hvalid
    dsimp only at hvalid
    split at hvalid
    · cases hvalid
    · obtain ⟨ce', hslot, heq⟩ := Option.map_eq_some_iff.mp hvalid
      cases heq
      refine ⟨hslot, ⟨h.conditions.old _ ce hslot, ?_⟩, (own_of_valid h hlock hle).2⟩
      by_contra hspace
      exact hcondition (.inr (.inr (.inr ⟨ce, hslot, hspace⟩)))

theorem validated_cases {valid : Bool} {rest : Option Tables} {s' : Shared}
    (hstep : s.validated valid rest = some s') :
    s' = s ∨ ∃ tables, rest = some tables ∧ s' = { s with tables := tables } := by
  unfold validated at hstep
  split at hstep
  · obtain ⟨tables, hrest, rfl⟩ := Option.map_eq_some_iff.mp hstep
    exact .inr ⟨tables, hrest, rfl⟩
  · cases hstep
    exact .inl rfl

variable {s' : Shared}

theorem Guarded.Acquire (h : s.Guarded) {lock : Int} (hbad : ¬ s.BadLock lock)
    (hstep : s.Acquire_Syscall lock = some s') : s'.Guarded ∧ Private s.currentSpace s s' := by
  rcases validated_cases hstep with rfl | ⟨tables, hrest, rfl⟩
  · exact ⟨h, .refl _ _⟩
  rcases TablesInv.withLock_cases hrest with rfl | ⟨le, a, hvalid, -, rfl⟩
  · exact ⟨h, .refl _ _⟩
  · exact h.kernelStep (.Acquire (own_of_valid h hbad hvalid).2) h.checks

theorem Guarded.Release (h : s.Guarded) {lock : Int} (hbad : ¬ s.BadLock lock)
    (hstep : s.Release_Syscall lock = some s') : s'.Guarded ∧ Private s.currentSpace s s' := by
  rcases validated_cases hstep with rfl | ⟨tables, hrest, rfl⟩
  · exact ⟨h, .refl _ _⟩
  rcases TablesInv.withLock_cases hrest with rfl | ⟨le, a, hvalid, -, rfl⟩
  · exact ⟨h, .refl _ _⟩
  obtain ⟨hslot, hown⟩ := own_of_valid h hbad hvalid
  apply h.kernelStep (.Release hown) (h.setChecking _)
  rintro check ⟨⟩
  exact ⟨hown, fun _ => hslot⟩

theorem Guarded.DestroyLock (h : s.Guarded) {lock : Int} (hbad : ¬ s.BadLock lock)
    (hstep : s.DestroyLock_Syscall lock = some s') :
    s'.Guarded ∧ Private s.currentSpace s s' := by
  rcases validated_cases hstep with rfl | ⟨tables, hrest, rfl⟩
  · exact ⟨h, .refl _ _⟩
  rcases TablesInv.withLock_cases hrest with rfl | ⟨le, a, hvalid, hentry, rfl⟩
  · exact ⟨h, .refl _ _⟩
  obtain ⟨hslot, hown⟩ := own_of_valid h hbad hvalid
  split
  · exact h.markLock (by rw [hentry]; rfl) hown _
  · exact h.deleteLock hslot hown

theorem Guarded.Wait (h : s.Guarded) {condition lock : Int} (hcondition : ¬ s.BadCondition condition)
    (hlock : ¬ s.BadLock lock) (hstep : s.Wait_Syscall condition lock = some s') :
    s'.Guarded ∧ Private s.currentSpace s s' := by
  rcases validated_cases hstep with rfl | ⟨tables, hrest, rfl⟩
  · exact ⟨h, .refl _ _⟩
  rcases TablesInv.withCondition_cases hrest with rfl | ⟨ce, le, hvalid, -, -, rfl⟩
  · exact ⟨h, .refl _ _⟩
  obtain ⟨-, hce, hle⟩ := own_of_valid_condition h hcondition hlock hvalid
  exact h.kernelStep (.Wait hce hle) h.checks

theorem Guarded.Signal (h : s.Guarded) {condition lock : Int}
    (hcondition : ¬ s.BadCondition condition) (hlock : ¬ s.BadLock lock)
    (hstep : s.Signal_Syscall condition lock = some s') :
    s'.Guarded ∧ Private s.currentSpace s s' := by
  rcases validated_cases hstep with rfl | ⟨tables, hrest, rfl⟩
  · exact ⟨h, .refl _ _⟩
  rcases TablesInv.withCondition_cases hrest with rfl | ⟨ce, le, hvalid, -, -, rfl⟩
  · exact ⟨h, .refl _ _⟩
  obtain ⟨hslot, hce, -⟩ := own_of_valid_condition h hcondition hlock hvalid
  apply h.kernelStep (.Signal hce (some le)) (h.setChecking _)
  rintro check ⟨⟩
  exact ⟨hce, fun _ => hslot⟩

theorem Guarded.Broadcast (h : s.Guarded) {condition lock : Int}
    (hcondition : ¬ s.BadCondition condition) (hlock : ¬ s.BadLock lock)
    (hstep : s.Broadcast_Syscall condition lock = some s') :
    s'.Guarded ∧ Private s.currentSpace s s' := by
  rcases validated_cases hstep with rfl | ⟨tables, hrest, rfl⟩
  · exact ⟨h, .refl _ _⟩
  rcases TablesInv.withCondition_cases hrest with rfl | ⟨ce, le, hvalid, -, -, rfl⟩
  · exact ⟨h, .refl _ _⟩
  obtain ⟨hslot, hce, -⟩ := own_of_valid_condition h hcondition hlock hvalid
  apply h.kernelStep (.Broadcast hce (some le)) (h.setChecking _)
  rintro check ⟨⟩
  exact ⟨hce, fun _ => hslot⟩

theorem Guarded.DestroyCondition (h : s.Guarded) {condition : Int}
    (hbad : ¬ s.BadCondition condition)
    (hstep : s.DestroyCondition_Syscall condition = some s') :
    s'.Guarded ∧ Private s.currentSpace s s' := by
  rcases validated_cases hstep with rfl | ⟨tables, hrest, rfl⟩
  · exact ⟨h, .refl _ _⟩
  obtain ⟨ce, hslot, hentry, rfl⟩ := TablesInv.DestroyCondition_cases hrest
  have hown : s.OwnCondition s.currentSpace ce := by
    refine ⟨h.conditions.old _ ce hslot, ?_⟩
    by_contra hspace
    exact hbad (.inr (.inr (.inr ⟨ce, hslot, hspace⟩)))
  split
  · exact h.markCondition hentry hown _
  · exact h.deleteCondition hslot hown

/-- A syscall of a process leaves the entries of the others, unless it is a bad
`DestroyCondition` that has an effect. -/
theorem Guarded.syscall (h : s.Guarded) {c : Syscall} (hright : s.Bad c → s.Harmless c)
    (hstep : s.syscall c = some s') : s'.Guarded ∧ Private s.currentSpace s s' := by
  by_cases hbad : s.Bad c
  · have hsame : some s = some s' := ((syscall_bad hbad).mpr (hright hbad)).symm.trans hstep
    cases hsame
    exact ⟨h, .refl _ _⟩
  cases c with
  | CreateLock =>
    cases hstep
    exact h.CreateLock
  | Acquire lock => exact h.Acquire hbad hstep
  | Release lock => exact h.Release hbad hstep
  | DestroyLock lock => exact h.DestroyLock hbad hstep
  | CreateCondition =>
    cases hstep
    exact h.CreateCondition
  | Wait condition lock => exact h.Wait (not_or.mp hbad).1 (not_or.mp hbad).2 hstep
  | Signal condition lock => exact h.Signal (not_or.mp hbad).1 (not_or.mp hbad).2 hstep
  | Broadcast condition lock => exact h.Broadcast (not_or.mp hbad).1 (not_or.mp hbad).2 hstep
  | DestroyCondition condition => exact h.DestroyCondition hbad hstep

/-! ### Steps -/

theorem Guarded.check (h : s.Guarded) {check : Check} {tables : Tables}
    (hown : s.OwnCheck s.currentSpace check) (hcheck : s.tables.check check = some tables) :
    let s' := { s with tables := tables }
    s'.Guarded ∧ Private s.currentSpace s s' := by
  cases check with
  | lock i le =>
    obtain ⟨a, ha, rfl⟩ := Option.map_eq_some_iff.mp hcheck
    have hslot := hown.2 (by rw [ha]; rfl)
    split
    · exact h.deleteLock hslot hown.1
    · exact ⟨h, .refl _ _⟩
  | condition i ce =>
    obtain ⟨a, ha, rfl⟩ := Option.map_eq_some_iff.mp hcheck
    have hslot := hown.2 (by rw [ha]; rfl)
    split
    · exact h.deleteCondition hslot hown.1
    · exact ⟨h, .refl _ _⟩

/-- The thread that ends its syscall has no check to do any more. -/
theorem Guarded.checked (h : s.Guarded) :
    ({ s with tables := s.tables.setChecking none } : Shared).Guarded := by
  have hnone : ∀ check, (none : Option Check) = some check → s.OwnCheck s.currentSpace check :=
    nofun
  exact (h.kernelStep (.of_eq rfl rfl rfl) (h.setChecking hnone)).1

theorem Guarded.forked (h : s.Guarded) {thread : ThreadId}
    (hpc : s.tables.kernel.pc thread = .user) (space : Nat) : (s.forked thread space).Guarded where
  locks := h.locks
  conditions := h.conditions
  pcs t := by
    show (s.tables.kernel.pc t).Within (s.OwnLock (Function.update s.space thread space t))
      (s.OwnCondition (Function.update s.space thread space t))
    by_cases ht : t = thread
    · rw [ht, hpc]
      trivial
    · rw [Function.update_of_ne ht]
      exact h.pcs t
  checks t check hcheck := by
    show s.OwnCheck (Function.update s.space thread space t) check
    by_cases ht : t = thread
    · have hnone : (s.forked thread space).tables.checking t = none := by
        rw [ht]
        exact Function.update_self _ _ _
      cases hnone.symm.trans hcheck
    · have hsame : (s.forked thread space).tables.checking t = s.tables.checking t :=
        Function.update_of_ne ht _ _
      rw [Function.update_of_ne ht]
      exact h.checks t check (hsame.symm.trans hcheck)

theorem Guarded.kernel (h : s.Guarded) {op : Op} {space : Nat}
    (hstep : SharedStep s (.kernel op space) s') : s'.Guarded ∧ Private s.currentSpace s s' := by
  obtain ⟨tables, htables, rfl⟩ := Option.map_eq_some_iff.mp hstep
  unfold Tables.next at htables
  dsimp only at htables
  split at htables
  · rename_i hpossible
    obtain ⟨kernel, hkernel, rfl⟩ := Option.map_eq_some_iff.mp htables
    have hall := h.kernelStep
      (.kernelStep hpossible hkernel (h.pcs s.tables.kernel.currentThread)) h.checks
    split
    · rename_i thread
      refine ⟨hall.1.forked ?_ space, hall.2.locks, hall.2.conditions⟩
      obtain ⟨-, rfl⟩ := by simpa [Kernel.next] using hkernel
      exact Function.update_self _ _ _
    · exact hall
  · cases htables

/-- Bad calls of `DestroyCondition` have no effect. -/
def Right (s : Shared) : SharedOp → Prop
  | .syscall c => s.Bad c → s.Harmless c
  | .check | .kernel _ _ => True

theorem Guarded.step (h : s.Guarded) {op : SharedOp}
    (hstep : Restrict SharedStep Right s op s') : s'.Guarded ∧ Private s.currentSpace s s' := by
  obtain ⟨hstep, hright⟩ := hstep
  cases op with
  | kernel op space => exact h.kernel hstep
  | syscall c =>
    unfold SharedStep next at hstep
    dsimp only at hstep
    split at hstep
    · exact h.syscall hright hstep
    · cases hstep
  | check =>
    obtain ⟨tables, htables, rfl⟩ := Option.map_eq_some_iff.mp hstep
    unfold Tables.next at htables
    dsimp only at htables
    split at htables
    · obtain ⟨check, hpending, hcheck⟩ := Option.bind_eq_some_iff.mp htables
      obtain ⟨tables', hdone, rfl⟩ := Option.map_eq_some_iff.mp hcheck
      obtain ⟨hguarded, hprivate⟩ := h.check (h.checks _ check hpending) hdone
      exact ⟨hguarded.checked, ⟨hprivate.locks, hprivate.conditions⟩⟩
    · cases htables

end Shared

/-! ## The claims for every state and every run -/

open Shared

/-- **Bad ids are rejected** without effect by every call but `DestroyCondition`, and by that
one where it is harmless; and in a run where it is harmless whenever its argument is bad, no
step of a process touches an entry of another. -/
theorem bad_ids_rejected (s : Shared) :
    (∀ c, s.Bad c → (s.syscall c = some s ↔ s.Harmless c)) ∧
    ∀ (main : ThreadId) (values : Nat → Int) (space : ThreadId → Nat) (s' : Shared)
      (op : SharedOp), Reachable (Restrict SharedStep Right) (.init main values space) s →
      Restrict SharedStep Right s op s' → Private s.currentSpace s s' := by
  refine ⟨fun c => syscall_bad, fun main values space s' op hreach hstep => ?_⟩
  have h : s.Guarded :=
    hreach.invariant (guarded_init main values space) fun _ _ _ h hstep => (h.step hstep).1
  exact (h.step hstep).2

/-! ## Two runs -/

/-- The step is no call of `DestroyCondition`. -/
def SharedOp.keeps : SharedOp → Bool
  | .syscall (.DestroyCondition _) => false
  | _ => true

theorem Shared.right_of_keeps {s : Shared} {op : SharedOp} (h : op.keeps = true) : Right s op := by
  unfold SharedOp.keeps at h
  cases op with
  | check => trivial
  | kernel op space => trivial
  | syscall c =>
    cases c with
    | DestroyCondition condition => cases h
    | _ => exact fun _ => trivial

/-- The main thread, of process 0, has a lock and a condition, and thread 1, of process 1,
runs. -/
def twoProcesses : List SharedOp :=
  [.syscall .CreateLock, .syscall .CreateCondition, .kernel (.call (.Fork 1)) 1,
    .kernel (.call .Yield) 0]

theorem bad_ids_rejected_acquire : ∃ s s' : Shared, s.BadLock 0 ∧
    s.syscall (.Acquire 0) = some s ∧ SharedStep s (.syscall .CreateLock) s' ∧
      s'.tables.lockTable 1 = some 2 ∧ Private 1 s s' := by
  have hrun : (Lib.execute (Lib.guarded Shared.next fun _ op => op.keeps = true)
      (.init 0 (fun _ => 0) fun _ => 0) twoProcesses).any
      (fun s => decide (s.tables.lockTable 0 = some 0 ∧ s.lockSpace 0 = 0 ∧ s.currentSpace = 1) &&
        (s.next (.syscall .CreateLock)).any fun s' => decide (s'.tables.lockTable 1 = some 2)) =
          true := by
    decide +kernel
  obtain ⟨s, hs, hdec⟩ := (Option.any_eq_true _ _).mp hrun
  obtain ⟨hat, hnext⟩ := Bool.and_eq_true_iff.mp hdec
  obtain ⟨hslot, hspace, hcur⟩ := of_decide_eq_true hat
  obtain ⟨s', hs', hnew⟩ := (Option.any_eq_true _ _).mp hnext
  have hbad : s.BadLock 0 := .inr (.inr (.inr ⟨0, hslot, by rw [hspace, hcur]; decide⟩))
  have hreach : Reachable (Restrict SharedStep Right) (.init 0 (fun _ => 0) fun _ => 0) s := by
    obtain ⟨l, hl⟩ := Lib.reachable_of_guarded (fun s op s' (h : SharedStep s op s') => h) hs
    exact ⟨l, hl.mono fun _ _ _ h => ⟨h.1, Shared.right_of_keeps h.2⟩⟩
  have hprivate := (bad_ids_rejected s).2 0 _ _ s' _ hreach ⟨hs', nofun⟩
  rw [hcur] at hprivate
  exact ⟨s, s', hbad, ((bad_ids_rejected s).1 (.Acquire 0) hbad).mpr trivial, hs',
    of_decide_eq_true hnew, hprivate⟩

/-- Process 1 destroys the condition of process 0; and with an index that is out of range, what
the machine does is undefined. -/
theorem condition_of_other_destroyed : ∃ s s' : Shared,
    Reachable SharedStep (.init 0 (fun _ => 0) fun _ => 0) s ∧
    SharedStep s (.syscall (.DestroyCondition 0)) s' ∧ s.Bad (.DestroyCondition 0) ∧
    s.tables.ConditionTable 0 = some 1 ∧ s.conditionSpace 1 ≠ s.currentSpace ∧
    s'.tables.ConditionTable 0 = none ∧ s.syscall (.DestroyCondition 0) ≠ some s ∧
    s.Bad (.DestroyCondition (-1)) ∧ s.syscall (.DestroyCondition (-1)) = none := by
  have hrun : (Lib.execute Shared.next (.init 0 (fun _ => 0) fun _ => 0) twoProcesses).any
      (fun s => decide (s.tables.ConditionTable 0 = some 1 ∧ s.conditionSpace 1 ≠ s.currentSpace) &&
        (s.next (.syscall (.DestroyCondition 0))).any fun s' =>
          decide (s'.tables.ConditionTable 0 = none)) = true := by
    decide +kernel
  obtain ⟨s, hs, hdec⟩ := (Option.any_eq_true _ _).mp hrun
  obtain ⟨hat, hnext⟩ := Bool.and_eq_true_iff.mp hdec
  obtain ⟨hslot, hspace⟩ := of_decide_eq_true hat
  obtain ⟨s', hs', hgone⟩ := (Option.any_eq_true _ _).mp hnext
  have hnone := of_decide_eq_true hgone
  have hcall : s.syscall (.DestroyCondition 0) = some s' := by
    unfold Shared.next at hs'
    dsimp only at hs'
    split at hs'
    · exact hs'
    · cases hs'
  refine ⟨s, s', ⟨_, Lib.path_of_execute (fun _ _ _ => id) hs⟩, hs',
    .inr (.inr (.inr ⟨1, hslot, hspace⟩)), hslot, hspace, hnone, ?_, .inl (by decide), rfl⟩
  rw [hcall]
  rintro ⟨⟩
  cases hslot.symm.trans hnone

end Nachos.Threads

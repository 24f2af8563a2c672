import Nachos.Lib.Counting
import Nachos.Lib.Path
import Nachos.Processes.Basic
import Nachos.VM.Stacks

/-!
# The machine halts with its last user thread

`numThreads` counts the threads of a process from the moment `Fork_Syscall` has called
`addThread`, before the thread is there. `execCalled` counts the threads that `Exec_Syscall`
starts, until `kernel_exec` has put their process into the table. So at every moment a thread
that has not left is counted in one of them, and the test in `Exit_Syscall` finds out
whether there is another one.
-/

namespace Nachos.Processes

open Lib (Reachable)
open VM (Stacks SameLayout)

/-! ## Counting the threads -/

/-- Sum over the threads made so far. -/
def sumTo (n : Nat) (F : Nat → Nat) : Nat := ((List.range n).map F).sum

theorem sumTo_succ (n : Nat) (F : Nat → Nat) : sumTo (n + 1) F = sumTo n F + F n := by
  simp [sumTo, List.range_succ]

theorem sumTo_congr {n : Nat} {F G : Nat → Nat} (h : ∀ u < n, G u = F u) :
    sumTo n G = sumTo n F := by
  unfold sumTo
  rw [List.map_congr_left fun u hu => h u (List.mem_range.mp hu)]

theorem sumTo_zero {n : Nat} {F : Nat → Nat} (h : ∀ u < n, F u = 0) : sumTo n F = 0 := by
  rw [sumTo_congr (F := fun _ => 0) h]
  simp [sumTo]

/-- One thread counts otherwise. -/
theorem sumTo_of_ne {n t : Nat} (ht : t < n) {F G : Nat → Nat}
    (h : ∀ u < n, u ≠ t → G u = F u) : sumTo n G + F t = sumTo n F + G t := by
  have hstep := Lib.sum_map_of_ne List.nodup_range (List.mem_range.mpr ht)
    (F := F) (G := Function.update F t (G t)) fun u hu => Function.update_of_ne hu _ _
  have hsame : sumTo n G = sumTo n (Function.update F t (G t)) := by
    apply sumTo_congr
    intro u hu
    by_cases heq : u = t
    · rw [heq, Function.update_self]
    · rw [Function.update_of_ne heq, h u hu heq]
  rw [Function.update_self] at hstep
  rw [hsame]
  exact hstep

theorem le_sumTo {n t : Nat} (ht : t < n) (F : Nat → Nat) : F t ≤ sumTo n F := by
  have hrest := sumTo_of_ne ht (F := F) (G := Function.update F t 0)
    fun v _ hv => Function.update_of_ne hv _ _
  rw [Function.update_self] at hrest
  omega

/-- Two threads count together at most the sum. -/
theorem add_le_sumTo {n t u : Nat} (ht : t < n) (hu : u < n) (hne : u ≠ t) (F : Nat → Nat) :
    F t + F u ≤ sumTo n F := by
  have hrest := sumTo_of_ne ht (F := F) (G := Function.update F t 0)
    fun v _ hv => Function.update_of_ne hv _ _
  have hle := le_sumTo hu (Function.update F t 0)
  rw [Function.update_of_ne hne] at hle
  rw [Function.update_self] at hrest
  omega

/-- `Exec_Syscall` has counted the thread that is being started, and `kernel_exec` has not
taken it off. -/
def Stage.pending : Stage → Bool
  | .ExecThread | .kernel_exec | .kernel_execCount => true
  | _ => false

/-- How often a thread counts in the process `s`: a second time for the thread it is about to
make. -/
def threadsOf (s : Nat) (thread : Option (Option Nat)) (stage : Stage) : Nat :=
  if thread = some (some s) then if stage = .ForkThread then 2 else 1 else 0

/-- How often a thread counts in `execCalled`. -/
def pendingOf (thread : Option (Option Nat)) (stage : Stage) : Nat :=
  if thread.isSome ∧ stage.pending then 1 else 0

namespace Machine

variable (m : Machine)

/-- The threads of the process, with those that `Fork_Syscall` has counted and not made. -/
def threads (s : Nat) : Nat :=
  sumTo m.vm.threadIDCount fun t => threadsOf s (m.vm.threads t) (m.stage t)

/-- The threads that `Exec_Syscall` has counted and `kernel_exec` has not taken off. -/
def pending : Nat :=
  sumTo m.vm.threadIDCount fun t => pendingOf (m.vm.threads t) (m.stage t)

end Machine

/-! ## The table -/

/-- No two entries are for one space. -/
structure ProcessTableClass.Ok (table : ProcessTableClass) : Prop where
  nodup : table.entries.Nodup
  count : ∀ p ∈ table.entries, p < table.count
  spaces : ∀ p ∈ table.entries, ∀ q ∈ table.entries,
    (table.entry p).space = (table.entry q).space → p = q

namespace ProcessTableClass

variable {table : ProcessTableClass}

theorem getProcessEntry_some {s p : Nat} (h : table.getProcessEntry s = some p) :
    p ∈ table.entries ∧ (table.entry p).space = s :=
  ⟨List.mem_of_find?_eq_some h, by simpa using List.find?_some h⟩

theorem Ok.getProcessEntry (h : table.Ok) {p : Nat} (hp : p ∈ table.entries) :
    table.getProcessEntry (table.entry p).space = some p := by
  cases hget : table.getProcessEntry (table.entry p).space with
  | none =>
    have hnone := List.find?_eq_none.mp hget p hp
    simp at hnone
  | some q =>
    obtain ⟨hq, hspace⟩ := getProcessEntry_some hget
    rw [h.spaces q hq p hp hspace]

theorem Ok.empty : ({} : ProcessTableClass).Ok := ⟨List.nodup_nil, nofun, nofun⟩

/-- A method of an entry that leaves its space. -/
theorem Ok.modEntry (h : table.Ok) (p : Nat) {f : ProcessTableEntry → ProcessTableEntry}
    (hf : ∀ e, (f e).space = e.space) : (table.modEntry p f).Ok := by
  have hspace : ∀ q, ((table.modEntry p f).entry q).space = (table.entry q).space := by
    intro q
    by_cases hq : q = p
    · subst hq
      simp [ProcessTableClass.modEntry, hf]
    · simp [ProcessTableClass.modEntry, hq]
  refine ⟨h.nodup, h.count, fun q hq r hr heq => ?_⟩
  rw [hspace, hspace] at heq
  exact h.spaces q hq r hr heq

/-- A space that is not in the table is added. -/
theorem Ok.addProcess (h : table.Ok) {s : Nat} (hnew : table.getProcessEntry s = none) :
    (table.addProcess s).Ok ∧ (table.addProcess s).entries = table.entries ++ [table.count] ∧
      (∀ p ∈ table.entries, (table.addProcess s).entry p = table.entry p) ∧
      (table.addProcess s).entry table.count = { space := s } := by
  have hentries : (table.addProcess s).entries = table.entries ++ [table.count] := by
    simp [ProcessTableClass.addProcess, hnew]
  have hold : ∀ p ∈ table.entries, (table.addProcess s).entry p = table.entry p := by
    intro p hp
    have hlt := h.count p hp
    exact Function.update_of_ne (by omega) _ _
  have hself : (table.addProcess s).entry table.count = { space := s } := Function.update_self _ _ _
  have hother : ∀ p ∈ table.entries, (table.entry p).space ≠ s := by
    intro p hp heq
    have hnone := List.find?_eq_none.mp hnew p hp
    simp [heq] at hnone
  refine ⟨⟨?_, fun p hp => ?_, fun p hp q hq heq => ?_⟩, hentries, hold, hself⟩
  · rw [hentries]
    refine List.nodup_append.mpr ⟨h.nodup, List.nodup_singleton _, ?_⟩
    intro p hp q hq heq
    rw [List.mem_singleton] at hq
    have hlt := h.count p hp
    omega
  · show p < table.count + 1
    rw [hentries, List.mem_append, List.mem_singleton] at hp
    rcases hp with hp | rfl
    · have hlt := h.count p hp
      omega
    · omega
  · rw [hentries, List.mem_append, List.mem_singleton] at hp hq
    rcases hp with hp | rfl
    · rcases hq with hq | rfl
      · rw [hold p hp, hold q hq] at heq
        exact h.spaces p hp q hq heq
      · rw [hold p hp, hself] at heq
        exact absurd heq (hother p hp)
    · rcases hq with hq | rfl
      · rw [hold q hq, hself] at heq
        exact absurd heq.symm (hother q hq)
      · rfl

/-- **`deleteProcess`** takes out the entry of the space. -/
theorem Ok.deleteProcess (h : table.Ok) (s : Nat) : (table.deleteProcess s).Ok ∧
    ∀ p, p ∈ (table.deleteProcess s).entries ↔ p ∈ table.entries ∧ (table.entry p).space ≠ s := by
  have hmem : ∀ p, p ∈ (table.deleteProcess s).entries ↔
      p ∈ table.entries ∧ (table.entry p).space ≠ s := by
    intro p
    show p ∈ table.entries.eraseP _ ↔ _
    constructor
    · intro hp
      have hold := List.mem_of_mem_eraseP hp
      refine ⟨hold, fun heq => ?_⟩
      obtain ⟨q, l₁, l₂, -, hq, hl, herase⟩ :=
        List.exists_of_eraseP (p := fun p => decide ((table.entry p).space = s)) hold (by simpa using heq)
      -- the entry that is erased is the one of the space, and the list does not repeat it
      have hqin : q ∈ table.entries := by
        rw [hl]
        exact List.mem_append_right _ List.mem_cons_self
      obtain rfl : p = q := h.spaces p hold q hqin (heq.trans (of_decide_eq_true hq).symm)
      have hnodup := h.nodup
      rw [hl] at hnodup
      rw [herase] at hp
      have hnot := (List.nodup_cons.mp (List.nodup_middle.mp hnodup)).1
      exact hnot hp
    · rintro ⟨hold, hne⟩
      exact (List.mem_eraseP_of_neg (by simpa using hne)).mpr hold
  refine ⟨⟨h.nodup.eraseP _, fun p hp => h.count p ((hmem p).mp hp).1, fun p hp q hq heq => ?_⟩,
    hmem⟩
  exact h.spaces p ((hmem p).mp hp).1 q ((hmem q).mp hq).1 heq

end ProcessTableClass

/-! ## The invariant -/

/-- The counters are exact, and the table has one entry for each process with a thread. -/
structure Counted (m : Machine) : Prop where
  stacked : Stacks m.vm
  table : m.ProcessTable.Ok
  numThreads : ∀ p ∈ m.ProcessTable.entries,
    (m.ProcessTable.entry p).numThreads = m.threads (m.ProcessTable.entry p).space
  listed : ∀ t s, m.vm.threads t = some (some s) →
    ∃ p ∈ m.ProcessTable.entries, (m.ProcessTable.entry p).space = s
  used : ∀ p ∈ m.ProcessTable.entries,
    ∃ t, m.vm.threads t = some (some (m.ProcessTable.entry p).space)
  execCalled : m.execCalled = m.pending
  located : ∀ t space, m.vm.threads t = some space →
    (space = none ↔ m.stage t = .StartProcess ∨ m.stage t = .kernel_exec)
  first : ∀ t, (m.vm.threads t).isSome = true → m.stage t = .StartProcess →
    ∀ u, (m.vm.threads u).isSome = true → u = t
  leaving : ∀ t s p, m.vm.threads t = some (some s) →
    m.stage t = .ExitLock p ∨ m.stage t = .ExitCase p →
    ∃ e ∈ m.ProcessTable.entries, p = some e ∧ (m.ProcessTable.entry e).space = s
  stack : ∀ t s sp, m.vm.threads t = some (some s) → m.vm.spaces s = some sp →
    (sp.threadTable t = none ↔ m.stage t = .kernel_thread)
  crashed : m.crashed = false

theorem counted_init (useFIFO : Bool) : Counted (.init useFIFO) := by
  have hthreads : ∀ t space, (VM.Kernel.init useFIFO).threads t = some space →
      t = 0 ∧ space = none := by
    intro t space ht
    simp only [VM.Kernel.init, Function.update_apply] at ht
    split at ht
    · rename_i heq
      cases ht
      exact ⟨heq, rfl⟩
    · cases ht
  have hnospace : ∀ t s, (VM.Kernel.init useFIFO).threads t ≠ some (some s) := by
    intro t s ht
    cases (hthreads t _ ht).2
  have hempty : ∀ p, p ∉ (Machine.init useFIFO).ProcessTable.entries := fun p =>
    List.not_mem_nil
  refine ⟨.init useFIFO, .empty, fun p hp => absurd hp (hempty p),
    fun t s ht => absurd ht (hnospace t s), fun p hp => absurd hp (hempty p), rfl,
    fun t space ht => ?_, fun t ht _ u hu => ?_, fun t s _ ht => absurd ht (hnospace t s),
    fun t s _ ht => absurd ht (hnospace t s), rfl⟩
  · exact ⟨fun _ => .inl rfl, fun _ => (hthreads t space ht).2⟩
  · obtain ⟨_, ht⟩ := Option.isSome_iff_exists.mp ht
    obtain ⟨_, hu⟩ := Option.isSome_iff_exists.mp hu
    exact (hthreads u _ hu).1.trans (hthreads t _ ht).1.symm

namespace Counted

variable {m m' : Machine}

theorem lt_threadIDCount (h : Counted m) {t : Nat} {space : Option Nat}
    (ht : m.vm.threads t = some space) : t < m.vm.threadIDCount :=
  h.stacked.threads t space ht

/-- The entry of a live thread. -/
theorem getProcessEntry (h : Counted m) {t s : Nat} (ht : m.vm.threads t = some (some s)) :
    ∃ p ∈ m.ProcessTable.entries, m.ProcessTable.getProcessEntry s = some p ∧
      (m.ProcessTable.entry p).space = s := by
  obtain ⟨p, hp, rfl⟩ := h.listed t s ht
  exact ⟨p, hp, h.table.getProcessEntry hp, rfl⟩

/-- The threads, the table and the counters stay. -/
theorem same (h : Counted m) (hstacks : Stacks m'.vm) (hthreads : m'.vm.threads = m.vm.threads)
    (hcount : m'.vm.threadIDCount = m.vm.threadIDCount)
    (hspaces : ∀ s sp', m'.vm.spaces s = some sp' →
      ∃ sp, m.vm.spaces s = some sp ∧ sp.threadTable = sp'.threadTable)
    (hm' : m' = { m with
      vm := m'.vm, halted := m'.halted, execLock := m'.execLock
      kernel_threadLock := m'.kernel_threadLock }) : Counted m' := by
  have hthreadsOf : ∀ s, m'.threads s = m.threads s := by
    intro s
    unfold Machine.threads
    rw [hcount, hthreads, hm']
  have hpending : m'.pending = m.pending := by
    unfold Machine.pending
    rw [hcount, hthreads, hm']
  have htable : m'.ProcessTable = m.ProcessTable := by rw [hm']
  have hstage : m'.stage = m.stage := by rw [hm']
  have hexec : m'.execCalled = m.execCalled := by rw [hm']
  have hcrashed : m'.crashed = m.crashed := by rw [hm']
  refine ⟨hstacks, ?_, ?_, ?_, ?_, ?_, ?_, ?_, ?_, fun t s sp' ht hs => ?_, ?_⟩
  · rw [htable]; exact h.table
  · intro p hp
    rw [hthreadsOf]
    rw [htable] at hp ⊢
    exact h.numThreads p hp
  · rw [htable, hthreads]; exact h.listed
  · rw [htable, hthreads]; exact h.used
  · rw [hexec, hpending]; exact h.execCalled
  · rw [hthreads, hstage]; exact h.located
  · rw [hthreads, hstage]; exact h.first
  · rw [hthreads, hstage, htable]; exact h.leaving
  · obtain ⟨sp, hsp, htab⟩ := hspaces s sp' hs
    rw [← htab, hstage]
    rw [hthreads] at ht
    exact h.stack t s sp ht hsp
  · rw [hcrashed]; exact h.crashed

/-- **One thread goes on to another stage**, and the counters follow it. -/
theorem moved (h : Counted m) {t : Nat} {space : Option Nat} (stage : Stage)
    (ht : m.vm.threads t = some space) (hstacks : Stacks m'.vm)
    (hthreads : m'.vm.threads = m.vm.threads) (hcount : m'.vm.threadIDCount = m.vm.threadIDCount)
    (hstage : m'.stage = Function.update m.stage t stage)
    (htable : m'.ProcessTable.Ok) (hentries : m'.ProcessTable.entries = m.ProcessTable.entries)
    (hspace : ∀ p, (m'.ProcessTable.entry p).space = (m.ProcessTable.entry p).space)
    (hnum : ∀ p ∈ m.ProcessTable.entries,
      (m'.ProcessTable.entry p).numThreads +
          threadsOf (m.ProcessTable.entry p).space (some space) (m.stage t) =
        (m.ProcessTable.entry p).numThreads +
          threadsOf (m.ProcessTable.entry p).space (some space) stage)
    (hexec : m'.execCalled + pendingOf (some space) (m.stage t) =
      m.execCalled + pendingOf (some space) stage)
    (hlocated : space = none ↔ stage = .StartProcess ∨ stage = .kernel_exec)
    (hfirst : stage ≠ .StartProcess)
    (hleaving : ∀ s p, space = some s → stage = .ExitLock p ∨ stage = .ExitCase p →
      ∃ e ∈ m.ProcessTable.entries, p = some e ∧ (m.ProcessTable.entry e).space = s)
    (hstack : ∀ u s sp, m.vm.threads u = some (some s) → m'.vm.spaces s = some sp →
      (sp.threadTable u = none ↔ m'.stage u = .kernel_thread))
    (hcrashed : m'.crashed = m.crashed) : Counted m' := by
  have hlt := h.lt_threadIDCount ht
  have hself : m'.stage t = stage := by rw [hstage, Function.update_self]
  have hother : ∀ u, u ≠ t → m'.stage u = m.stage u := fun u hu => by
    rw [hstage, Function.update_of_ne hu]
  have hthreadsOf : ∀ s, m'.threads s + threadsOf s (some space) (m.stage t) =
      m.threads s + threadsOf s (some space) stage := by
    intro s
    have hsum := sumTo_of_ne hlt (F := fun u => threadsOf s (m.vm.threads u) (m.stage u))
      (G := fun u => threadsOf s (m.vm.threads u) (m'.stage u))
      fun u _ hu => by rw [hother u hu]
    rw [ht, hself] at hsum
    unfold Machine.threads
    rw [hcount, hthreads]
    exact hsum
  have hpending : m'.pending + pendingOf (some space) (m.stage t) =
      m.pending + pendingOf (some space) stage := by
    have hsum := sumTo_of_ne hlt (F := fun u => pendingOf (m.vm.threads u) (m.stage u))
      (G := fun u => pendingOf (m.vm.threads u) (m'.stage u))
      fun u _ hu => by rw [hother u hu]
    rw [ht, hself] at hsum
    unfold Machine.pending
    rw [hcount, hthreads]
    exact hsum
  refine ⟨hstacks, htable, fun p hp => ?_, fun u s hu => ?_, fun p hp => ?_, ?_,
    fun u sp hu => ?_, fun u hu hstart v hv => ?_, fun u s p hu hleave => ?_,
    fun u s sp hu hs => ?_, hcrashed.trans h.crashed⟩
  · rw [hentries] at hp
    have hold := h.numThreads p hp
    have hnew := hnum p hp
    have hsum := hthreadsOf (m.ProcessTable.entry p).space
    rw [hspace]
    omega
  · rw [hthreads] at hu
    obtain ⟨p, hp, hps⟩ := h.listed u s hu
    exact ⟨p, hentries ▸ hp, (hspace p).trans hps⟩
  · rw [hentries] at hp
    rw [hthreads, hspace]
    exact h.used p hp
  · have hold := h.execCalled
    omega
  · rw [hthreads] at hu
    by_cases heq : u = t
    · subst heq
      cases ht.symm.trans hu
      rw [hself]
      exact hlocated
    · rw [hother u heq]
      exact h.located u sp hu
  · rw [hthreads] at hu hv
    by_cases heq : u = t
    · subst heq
      exact absurd (hself.symm.trans hstart) hfirst
    · rw [hother u heq] at hstart
      exact h.first u hu hstart v hv
  · rw [hthreads] at hu
    rw [hentries]
    by_cases heq : u = t
    · subst heq
      cases ht.symm.trans hu
      rw [hself] at hleave
      obtain ⟨e, he, hp, hes⟩ := hleaving s p rfl hleave
      exact ⟨e, he, hp, (hspace e).trans hes⟩
    · rw [hother u heq] at hleave
      obtain ⟨e, he, hp, hes⟩ := h.leaving u s p hu hleave
      exact ⟨e, he, hp, (hspace e).trans hes⟩
  · rw [hthreads] at hu
    exact hstack u s sp hu hs

/-- **A thread makes another one**, which counts for it from then on. -/
theorem spawned (h : Counted m) {t s : Nat} {space : Option Nat} {stage : Stage}
    (ht : m.vm.threads t = some (some s))
    (hspace : space = none ∧ stage = .kernel_exec ∨ space = some s ∧ stage = .kernel_thread)
    (hnum : ∀ s', threadsOf s' (some (some s)) (m.stage t) =
      threadsOf s' (some (some s)) .user + threadsOf s' (some space) stage)
    (hpend : pendingOf (some (some s)) (m.stage t) =
      pendingOf (some (some s)) .user + pendingOf (some space) stage)
    (hat : m.stage t ≠ .kernel_thread) :
    Counted ((m.newThread space stage).goTo t .user) := by
  have hlt := h.lt_threadIDCount ht
  obtain ⟨sp, hsp⟩ := h.stacked.spaces t s ht
  have hlive : ∀ s', space = some s' → s' = s := by
    rintro s' rfl
    rcases hspace with ⟨hnone, -⟩ | ⟨hsome, -⟩
    · cases hnone
    · exact Option.some.inj hsome
  -- the roles of the threads afterwards
  have hnewThread : ((m.newThread space stage).goTo t .user).vm.threads m.vm.threadIDCount =
      some space := Function.update_self _ _ _
  have hthread : ∀ u, u ≠ m.vm.threadIDCount →
      ((m.newThread space stage).goTo t .user).vm.threads u = m.vm.threads u :=
    fun u hu => Function.update_of_ne hu _ _
  have hnewStage : ((m.newThread space stage).goTo t .user).stage m.vm.threadIDCount = stage := by
    show Function.update (Function.update m.stage m.vm.threadIDCount stage) t .user _ = _
    rw [Function.update_of_ne (by omega), Function.update_self]
  have hself : ((m.newThread space stage).goTo t .user).stage t = .user := Function.update_self _ _ _
  have hother : ∀ u, u ≠ t → u ≠ m.vm.threadIDCount →
      ((m.newThread space stage).goTo t .user).stage u = m.stage u := by
    intro u hu hn
    show Function.update (Function.update m.stage m.vm.threadIDCount stage) t .user _ = _
    rw [Function.update_of_ne hu, Function.update_of_ne hn]
  have hthreadsOf : ∀ s', ((m.newThread space stage).goTo t .user).threads s' = m.threads s' := by
    intro s'
    have hsum := sumTo_of_ne hlt (F := fun u => threadsOf s' (m.vm.threads u) (m.stage u))
      (G := fun u => threadsOf s' (((m.newThread space stage).goTo t .user).vm.threads u)
        (((m.newThread space stage).goTo t .user).stage u))
      fun u hu hne => by rw [hthread u (by omega), hother u hne (by omega)]
    have hnew := hnum s'
    rw [hthread t (by omega), ht, hself] at hsum
    show sumTo (m.vm.threadIDCount + 1) _ = m.threads s'
    rw [sumTo_succ, hnewThread, hnewStage]
    unfold Machine.threads
    omega
  have hpending : ((m.newThread space stage).goTo t .user).pending = m.pending := by
    have hsum := sumTo_of_ne hlt (F := fun u => pendingOf (m.vm.threads u) (m.stage u))
      (G := fun u => pendingOf (((m.newThread space stage).goTo t .user).vm.threads u)
        (((m.newThread space stage).goTo t .user).stage u))
      fun u hu hne => by rw [hthread u (by omega), hother u hne (by omega)]
    rw [hthread t (by omega), ht, hself] at hsum
    show sumTo (m.vm.threadIDCount + 1) _ = m.pending
    rw [sumTo_succ, hnewThread, hnewStage]
    unfold Machine.pending
    omega
  refine ⟨h.stacked.newThread fun s' hs' => ?_, h.table, fun p hp => ?_, fun u s' hu => ?_,
    fun p hp => ?_, ?_, fun u sp' hu => ?_, fun u hu hstart v hv => ?_,
    fun u s' p hu hleave => ?_, fun u s' sp' hu hs => ?_, h.crashed⟩
  · rw [hlive s' hs']
    exact ⟨sp, hsp⟩
  · rw [hthreadsOf]
    exact h.numThreads p hp
  · by_cases heq : u = m.vm.threadIDCount
    · rw [heq, hnewThread] at hu
      obtain rfl := hlive s' (Option.some.inj hu)
      exact h.listed t s' ht
    · rw [hthread u heq] at hu
      exact h.listed u s' hu
  · obtain ⟨u, hu⟩ := h.used p hp
    have hlt' := h.lt_threadIDCount hu
    exact ⟨u, (hthread u (by omega)).trans hu⟩
  · rw [hpending]
    exact h.execCalled
  · by_cases heq : u = m.vm.threadIDCount
    · rw [heq, hnewThread] at hu
      cases hu
      rw [heq, hnewStage]
      rcases hspace with ⟨rfl, rfl⟩ | ⟨rfl, rfl⟩ <;> simp
    · rw [hthread u heq] at hu
      by_cases hut : u = t
      · subst hut
        cases ht.symm.trans hu
        rw [hself]
        simp
      · rw [hother u hut heq]
        exact h.located u sp' hu
  · -- the thread that makes another one is past `StartProcess`
    exfalso
    by_cases heq : u = m.vm.threadIDCount
    · rw [heq, hnewStage] at hstart
      rcases hspace with ⟨-, rfl⟩ | ⟨-, rfl⟩ <;> cases hstart
    · by_cases hut : u = t
      · rw [hut, hself] at hstart
        cases hstart
      · rw [hthread u heq] at hu
        rw [hother u hut heq] at hstart
        exact hut (h.first u hu hstart t (by rw [ht]; rfl)).symm
  · by_cases heq : u = m.vm.threadIDCount
    · rw [heq, hnewStage] at hleave
      rcases hspace with ⟨-, rfl⟩ | ⟨-, rfl⟩ <;> simp at hleave
    · by_cases hut : u = t
      · rw [hut, hself] at hleave
        simp at hleave
      · rw [hthread u heq] at hu
        rw [hother u hut heq] at hleave
        exact h.leaving u s' p hu hleave
  · have hs : m.vm.spaces s' = some sp' := hs
    by_cases heq : u = m.vm.threadIDCount
    · subst heq
      rw [hnewThread] at hu
      rw [hnewStage]
      -- nobody has had the number of the new thread
      have hfresh : sp'.threadTable m.vm.threadIDCount = none := by
        cases htab : sp'.threadTable m.vm.threadIDCount with
        | none => rfl
        | some pages => exact absurd (h.stacked.known s' sp' _ pages hs htab) (by omega)
      rcases hspace with ⟨rfl, -⟩ | ⟨-, rfl⟩
      · cases hu
      · exact iff_of_true hfresh rfl
    · rw [hthread u heq] at hu
      by_cases hut : u = t
      · subst hut
        rw [hself, h.stack u s' sp' hu hs]
        exact iff_of_false hat (by simp)
      · rw [hother u hut heq]
        exact h.stack u s' sp' hu hs

/-- No thread is in the space that is made next. -/
theorem spaceCount_new (h : Counted m) (u : Nat) :
    m.vm.threads u ≠ some (some m.vm.spaceCount) := by
  intro hu
  obtain ⟨sp, hsp⟩ := h.stacked.spaces u _ hu
  rw [h.stacked.sound.spaces.fresh _ (Nat.le_refl _)] at hsp
  cases hsp

/-- **A thread without a space gets one**, and its process an entry that counts it. -/
theorem placed (h : Counted m) {t : Nat} {stage : Stage} (ht : m.vm.threads t = some none)
    (exe : VM.Executable) (hstage : stage = .user ∨ stage = .kernel_execCount)
    (hpend : pendingOf (some none) (m.stage t) = pendingOf (some (some m.vm.spaceCount)) stage) :
    Counted ((m.newProcess t exe).goTo t stage) := by
  have hlt := h.lt_threadIDCount ht
  have hself : ((m.newProcess t exe).goTo t stage).stage t = stage := Function.update_self _ _ _
  have hother : ∀ u, u ≠ t → ((m.newProcess t exe).goTo t stage).stage u = m.stage u :=
    fun u hu => Function.update_of_ne hu _ _
  have hthread : ((m.newProcess t exe).goTo t stage).vm.threads t = some (some m.vm.spaceCount) :=
    Function.update_self _ _ _
  have hthreads : ∀ u, u ≠ t →
      ((m.newProcess t exe).goTo t stage).vm.threads u = m.vm.threads u :=
    fun u hu => Function.update_of_ne hu _ _
  have hnospace := h.spaceCount_new
  have hnone : m.ProcessTable.getProcessEntry m.vm.spaceCount = none := by
    cases hget : m.ProcessTable.getProcessEntry m.vm.spaceCount with
    | none => rfl
    | some p =>
      obtain ⟨hp, hspace⟩ := ProcessTableClass.getProcessEntry_some hget
      obtain ⟨u, hu⟩ := h.used p hp
      rw [hspace] at hu
      exact absurd hu (hnospace u)
  obtain ⟨hok, hentries, hold, hnew⟩ := h.table.addProcess hnone
  have hcases : ∀ p ∈ ((m.newProcess t exe).goTo t stage).ProcessTable.entries,
      p ∈ m.ProcessTable.entries ∨ p = m.ProcessTable.count := by
    intro p hp
    have hp : p ∈ (m.ProcessTable.addProcess m.vm.spaceCount).entries := hp
    rwa [hentries, List.mem_append, List.mem_singleton] at hp
  have hkept : ∀ p ∈ m.ProcessTable.entries,
      p ∈ ((m.newProcess t exe).goTo t stage).ProcessTable.entries := by
    intro p hp
    show p ∈ (m.ProcessTable.addProcess m.vm.spaceCount).entries
    rw [hentries]
    exact List.mem_append_left _ hp
  have hadded : m.ProcessTable.count ∈
      ((m.newProcess t exe).goTo t stage).ProcessTable.entries := by
    show m.ProcessTable.count ∈ (m.ProcessTable.addProcess m.vm.spaceCount).entries
    rw [hentries]
    exact List.mem_append_right _ (List.mem_singleton.mpr rfl)
  have hthreadsOf : ∀ s, ((m.newProcess t exe).goTo t stage).threads s =
      if s = m.vm.spaceCount then 1 else m.threads s := by
    intro s
    have hsum := sumTo_of_ne hlt (F := fun u => threadsOf s (m.vm.threads u) (m.stage u))
      (G := fun u => threadsOf s (((m.newProcess t exe).goTo t stage).vm.threads u)
        (((m.newProcess t exe).goTo t stage).stage u))
      fun u _ hne => by rw [hthreads u hne, hother u hne]
    have hwas : threadsOf s (some none) (m.stage t) = 0 := by simp [threadsOf]
    rw [hthread, hself, ht, hwas] at hsum
    show sumTo m.vm.threadIDCount _ = _
    by_cases hs : s = m.vm.spaceCount
    · subst hs
      have hzero : sumTo m.vm.threadIDCount
          (fun u => threadsOf m.vm.spaceCount (m.vm.threads u) (m.stage u)) = 0 :=
        sumTo_zero fun u _ => if_neg (hnospace u)
      have hone : threadsOf m.vm.spaceCount (some (some m.vm.spaceCount)) stage = 1 := by
        rcases hstage with rfl | rfl <;> simp [threadsOf]
      rw [if_pos rfl]
      omega
    · have hnot : threadsOf s (some (some m.vm.spaceCount)) stage = 0 := by
        simp [threadsOf, Ne.symm hs]
      rw [if_neg hs]
      unfold Machine.threads
      omega
  have hpending : ((m.newProcess t exe).goTo t stage).pending = m.pending := by
    have hsum := sumTo_of_ne hlt (F := fun u => pendingOf (m.vm.threads u) (m.stage u))
      (G := fun u => pendingOf (((m.newProcess t exe).goTo t stage).vm.threads u)
        (((m.newProcess t exe).goTo t stage).stage u))
      fun u _ hne => by rw [hthreads u hne, hother u hne]
    rw [hthread, hself, ht] at hsum
    show sumTo m.vm.threadIDCount _ = _
    unfold Machine.pending
    omega
  have hspaceOld : ∀ p ∈ m.ProcessTable.entries,
      (m.ProcessTable.entry p).space ≠ m.vm.spaceCount := by
    intro p hp heq
    obtain ⟨u, hu⟩ := h.used p hp
    rw [heq] at hu
    exact hnospace u hu
  refine ⟨h.stacked.create hlt exe, hok, fun p hp => ?_, fun u s hu => ?_, fun p hp => ?_, ?_,
    fun u sp hu => ?_, fun u hu hstart v hv => ?_, fun u s p hu hleave => ?_,
    fun u s sp hu hs => ?_, h.crashed⟩
  · rw [hthreadsOf]
    rcases hcases p hp with hp | rfl
    · have hentry : ((m.newProcess t exe).goTo t stage).ProcessTable.entry p =
          m.ProcessTable.entry p := hold p hp
      rw [hentry, if_neg (hspaceOld p hp)]
      exact h.numThreads p hp
    · have hentry : ((m.newProcess t exe).goTo t stage).ProcessTable.entry m.ProcessTable.count =
          { space := m.vm.spaceCount } := hnew
      rw [hentry, if_pos rfl]
      rfl
  · by_cases heq : u = t
    · subst heq
      cases hthread.symm.trans hu
      exact ⟨_, hadded, congrArg ProcessTableEntry.space hnew⟩
    · rw [hthreads u heq] at hu
      obtain ⟨p, hp, hps⟩ := h.listed u s hu
      exact ⟨p, hkept p hp, (congrArg ProcessTableEntry.space (hold p hp)).trans hps⟩
  · rcases hcases p hp with hp | rfl
    · obtain ⟨u, hu⟩ := h.used p hp
      have hne : u ≠ t := by
        rintro rfl
        rw [ht] at hu
        cases hu
      refine ⟨u, (hthreads u hne).trans ?_⟩
      show _ = some (some ((m.ProcessTable.addProcess m.vm.spaceCount).entry p).space)
      rw [hold p hp]
      exact hu
    · refine ⟨t, hthread.trans ?_⟩
      show _ = some (some ((m.ProcessTable.addProcess m.vm.spaceCount).entry _).space)
      rw [hnew]
  · rw [hpending]
    exact h.execCalled
  · by_cases heq : u = t
    · subst heq
      cases hthread.symm.trans hu
      rw [hself]
      rcases hstage with rfl | rfl <;> simp
    · rw [hthreads u heq] at hu
      rw [hother u heq]
      exact h.located u sp hu
  · exfalso
    by_cases heq : u = t
    · rw [heq, hself] at hstart
      rcases hstage with rfl | rfl <;> cases hstart
    · rw [hthreads u heq] at hu
      rw [hother u heq] at hstart
      exact heq (h.first u hu hstart t (by rw [ht]; rfl)).symm
  · by_cases heq : u = t
    · rw [heq, hself] at hleave
      rcases hstage with rfl | rfl <;> simp at hleave
    · rw [hthreads u heq] at hu
      rw [hother u heq] at hleave
      obtain ⟨e, he, hp, hes⟩ := h.leaving u s p hu hleave
      exact ⟨e, hkept e he, hp, (congrArg ProcessTableEntry.space (hold e he)).trans hes⟩
  · by_cases heq : u = t
    · subst heq
      cases hthread.symm.trans hu
      have hnewSpace : ((m.newProcess u exe).goTo u stage).vm.spaces m.vm.spaceCount =
          some (VM.AddrSpace.new exe u) := Function.update_self _ _ _
      rw [hnewSpace] at hs
      cases hs
      rw [hself]
      rcases hstage with rfl | rfl <;> simp [VM.AddrSpace.new]
    · rw [hthreads u heq] at hu
      have hne : s ≠ m.vm.spaceCount := by
        rintro rfl
        exact hnospace u hu
      have hsame : ((m.newProcess t exe).goTo t stage).vm.spaces s = m.vm.spaces s :=
        Function.update_of_ne hne _ _
      rw [hother u heq]
      exact h.stack u s sp hu (hsame.symm.trans hs)

/-! ### Leaving -/

section Leaving

variable {t s p : Nat} (h : Counted m) (ht : m.vm.threads t = some (some s))
  (hstage : m.stage t = .ExitCase (some p))

include h ht hstage

/-- The entry that `Exit_Syscall` found before it took the locks is still that of its process. -/
theorem entry_of_exit : p ∈ m.ProcessTable.entries ∧ (m.ProcessTable.entry p).space = s := by
  obtain ⟨e, he, hp, hes⟩ := h.leaving t s (some p) ht (.inr hstage)
  cases hp
  exact ⟨he, hes⟩

omit h ht in
/-- The thread counts once. -/
theorem threadsOf_exit : threadsOf s (some (some s)) (m.stage t) = 1 := by
  simp [threadsOf, hstage]

/-- **`numThreads` is 1 exactly for the last thread of a process.** -/
theorem threads_eq_one_iff : m.threads s = 1 ↔ ∀ u, m.vm.threads u = some (some s) → u = t := by
  have hlt := h.lt_threadIDCount ht
  have hself := threadsOf_exit (s := s) hstage
  constructor
  · intro hone u hu
    by_contra hne
    have hle := add_le_sumTo hlt (h.lt_threadIDCount hu) hne
      fun u => threadsOf s (m.vm.threads u) (m.stage u)
    have hpos : 1 ≤ threadsOf s (some (some s)) (m.stage u) := by
      unfold threadsOf
      rw [if_pos rfl]
      split <;> omega
    rw [ht, hu] at hle
    unfold Machine.threads at hone
    omega
  · intro hlast
    have hrest := sumTo_of_ne hlt (F := fun u => threadsOf s (m.vm.threads u) (m.stage u))
      (G := fun u => if u = t then 1 else 0) fun u _ hne => by
        rw [if_neg hne]
        exact (if_neg fun hu => hne (hlast u hu)).symm
    have hsingle := sumTo_of_ne hlt (F := fun _ => 0) (G := fun u => if u = t then 1 else 0)
      fun u _ hne => if_neg hne
    have hzero : sumTo m.vm.threadIDCount (fun _ => 0) = 0 := sumTo_zero fun _ _ => rfl
    rw [ht, hself, if_pos rfl] at hrest
    rw [if_pos rfl] at hsingle
    unfold Machine.threads
    omega

theorem one_le_threads : 1 ≤ m.threads s := by
  have hle := le_sumTo (h.lt_threadIDCount ht) fun u => threadsOf s (m.vm.threads u) (m.stage u)
  rw [ht, threadsOf_exit hstage] at hle
  exact hle

/-- Without the thread its process counts one less, and nothing else changes. -/
theorem counts_left (hthreads : m'.vm.threads = Function.update m.vm.threads t none)
    (hcount : m'.vm.threadIDCount = m.vm.threadIDCount) (hsame : m'.stage = m.stage) :
    (∀ s', m'.threads s' + (if s' = s then 1 else 0) = m.threads s') ∧ m'.pending = m.pending := by
  have hlt := h.lt_threadIDCount ht
  have hself := threadsOf_exit (s := s) hstage
  have hother : ∀ u, u ≠ t → m'.vm.threads u = m.vm.threads u := fun u hu => by
    rw [hthreads, Function.update_of_ne hu]
  have hgone : m'.vm.threads t = none := by rw [hthreads, Function.update_self]
  constructor
  · intro s'
    have hsum := sumTo_of_ne hlt (F := fun u => threadsOf s' (m.vm.threads u) (m.stage u))
      (G := fun u => threadsOf s' (m'.vm.threads u) (m'.stage u))
      fun u _ hne => by rw [hother u hne, hsame]
    have hnone : threadsOf s' none (m'.stage t) = 0 := rfl
    rw [hgone, ht, hnone] at hsum
    unfold Machine.threads
    rw [hcount]
    by_cases hs : s' = s
    · subst hs
      rw [if_pos rfl]
      omega
    · have hnot : threadsOf s' (some (some s)) (m.stage t) = 0 := by
        simp [threadsOf, Ne.symm hs]
      rw [if_neg hs]
      omega
  · have hsum := sumTo_of_ne hlt (F := fun u => pendingOf (m.vm.threads u) (m.stage u))
      (G := fun u => pendingOf (m'.vm.threads u) (m'.stage u))
      fun u _ hne => by rw [hother u hne, hsame]
    have hnone : pendingOf none (m'.stage t) = 0 := rfl
    have hnot : pendingOf (some (some s)) (m.stage t) = 0 := by simp [pendingOf, Stage.pending, hstage]
    rw [hgone, ht, hnone, hnot] at hsum
    unfold Machine.pending
    rw [hcount]
    omega

variable (m') in
/-- **A thread leaves.** What is asked of the table is that it counts the rest. -/
theorem left (hthreads : m'.vm.threads = Function.update m.vm.threads t none)
    (hcount : m'.vm.threadIDCount = m.vm.threadIDCount) (hsame : m'.stage = m.stage)
    (hexec : m'.execCalled = m.execCalled) (hcrashed : m'.crashed = m.crashed)
    (hstacks : Stacks m'.vm) (htable : m'.ProcessTable.Ok)
    (hspaces : ∀ u s' sp', u ≠ t → m.vm.threads u = some (some s') → m'.vm.spaces s' = some sp' →
      ∃ sp, m.vm.spaces s' = some sp ∧ sp.threadTable = sp'.threadTable)
    (hold : ∀ q ∈ m'.ProcessTable.entries, q ∈ m.ProcessTable.entries ∧
      (∃ u, u ≠ t ∧ m.vm.threads u = some (some (m.ProcessTable.entry q).space)))
    (hkept : ∀ q ∈ m.ProcessTable.entries,
      (∃ u, u ≠ t ∧ m.vm.threads u = some (some (m.ProcessTable.entry q).space)) →
      q ∈ m'.ProcessTable.entries)
    (hspace : ∀ q, (m'.ProcessTable.entry q).space = (m.ProcessTable.entry q).space)
    (hnum : ∀ q ∈ m'.ProcessTable.entries, (m'.ProcessTable.entry q).numThreads +
      (if (m.ProcessTable.entry q).space = s then 1 else 0) =
        (m.ProcessTable.entry q).numThreads) : Counted m' := by
  obtain ⟨hthreadsOf, hpending⟩ := h.counts_left ht hstage hthreads hcount hsame
  have hother : ∀ u sp, m'.vm.threads u = some sp → u ≠ t ∧ m.vm.threads u = some sp := by
    intro u sp hu
    rw [hthreads] at hu
    by_cases heq : u = t
    · rw [heq, Function.update_self] at hu
      cases hu
    · rw [Function.update_of_ne heq] at hu
      exact ⟨heq, hu⟩
  refine ⟨hstacks, htable, fun q hq => ?_, fun u s' hu => ?_, fun q hq => ?_, ?_,
    fun u sp hu => ?_, fun u hu hstart v hv => ?_, fun u s' q hu hleave => ?_,
    fun u s' sp' hu hs => ?_, hcrashed.trans h.crashed⟩
  · have hwas := h.numThreads q (hold q hq).1
    have hnow := hnum q hq
    have hsum := hthreadsOf (m.ProcessTable.entry q).space
    rw [hspace]
    by_cases heq : (m.ProcessTable.entry q).space = s
    · rw [if_pos heq] at hnow hsum
      omega
    · rw [if_neg heq] at hnow hsum
      omega
  · obtain ⟨hne, hu⟩ := hother u _ hu
    obtain ⟨q, hq, rfl⟩ := h.listed u s' hu
    exact ⟨q, hkept q hq ⟨u, hne, hu⟩, hspace q⟩
  · obtain ⟨u, hne, hu⟩ := (hold q hq).2
    refine ⟨u, ?_⟩
    rw [hthreads, Function.update_of_ne hne, hspace]
    exact hu
  · rw [hexec, hpending]
    exact h.execCalled
  · rw [hsame]
    exact h.located u sp (hother u sp hu).2
  · obtain ⟨_, hu⟩ := Option.isSome_iff_exists.mp hu
    obtain ⟨_, hv⟩ := Option.isSome_iff_exists.mp hv
    rw [hsame] at hstart
    exact h.first u (by rw [(hother u _ hu).2]; rfl) hstart v (by rw [(hother v _ hv).2]; rfl)
  · obtain ⟨hne, hu⟩ := hother u _ hu
    rw [hsame] at hleave
    obtain ⟨e, he, hq, hes⟩ := h.leaving u s' q hu hleave
    exact ⟨e, hkept e he ⟨u, hne, hes ▸ hu⟩, hq, (hspace e).trans hes⟩
  · obtain ⟨hne, hu⟩ := hother u _ hu
    obtain ⟨sp, hsp, htab⟩ := hspaces u s' sp' hne hu hs
    rw [← htab, hsame]
    exact h.stack u s' sp hu hsp

/-- **The three cases of `Exit_Syscall`.** -/
theorem exit {sp : VM.AddrSpace} (hsp : m.vm.spaces s = some sp) (junk : Nat → Int) :
    Counted (m.leave t s p ((sp.threadTable t).getD []) junk (m.exitCase p)) := by
  obtain ⟨hp, hps⟩ := h.entry_of_exit ht hstage
  have hcount := h.numThreads p hp
  rw [hps] at hcount
  have hlast := h.threads_eq_one_iff ht hstage
  have hone := h.one_le_threads ht hstage
  obtain ⟨pages, hpages⟩ : ∃ pages, sp.threadTable t = some pages := by
    cases htab : sp.threadTable t with
    | some pages => exact ⟨pages, rfl⟩
    | none => cases hstage.symm.trans ((h.stack t s sp ht hsp).mp htab)
  rw [hpages, Option.getD_some]
  have hrange := h.stacked.stackPages hsp hpages
  unfold Machine.exitCase
  split
  · -- not the last thread
    rename_i hmore
    have hlay := VM.clearStack_sameLayout (k := m.vm) hrange
    have hspace : ∀ q, ((m.ProcessTable.modEntry p ProcessTableEntry.removeThread).entry q).space =
        (m.ProcessTable.entry q).space := by
      intro q
      by_cases hq : q = p
      · subst hq
        simp [ProcessTableClass.modEntry, ProcessTableEntry.removeThread]
      · simp [ProcessTableClass.modEntry, hq]
    obtain ⟨u, hu, hne⟩ : ∃ u, m.vm.threads u = some (some s) ∧ u ≠ t := by
      by_contra hnone
      have heq := hlast.mpr fun v hv => by_contra fun hne => hnone ⟨v, hv, hne⟩
      omega
    rw [m.leave_Exit (le_of_eq (h.stacked.length s sp t pages hsp hpages).symm)]
    apply h.left _ ht hstage
    · show Function.update (VM.clearStack m.vm s pages).threads t none = _
      rw [hlay.threads]
    · exact hlay.threadIDCount
    · rfl
    · rfl
    · rfl
    · exact h.stacked.exit hsp hpages
    · exact h.table.modEntry p fun e => rfl
    · intro v s' sp' _ _ hs
      exact hlay.threadTable hs
    · intro q hq
      refine ⟨hq, ?_⟩
      obtain ⟨v, hv⟩ := h.used q hq
      by_cases hvt : v = t
      · subst hvt
        cases ht.symm.trans hv
        exact ⟨u, hne, hu⟩
      · exact ⟨v, hvt, hv⟩
    · exact fun q hq _ => hq
    · exact hspace
    · intro q hq
      show ((m.ProcessTable.modEntry p ProcessTableEntry.removeThread).entry q).numThreads + _ = _
      by_cases hqp : q = p
      · subst hqp
        rw [if_pos hps]
        have hself : (m.ProcessTable.modEntry q ProcessTableEntry.removeThread).entry q =
            (m.ProcessTable.entry q).removeThread := Function.update_self _ _ _
        rw [hself]
        unfold ProcessTableEntry.removeThread
        dsimp only
        rw [if_neg (by omega)]
        omega
      · have hother : (m.ProcessTable.modEntry p ProcessTableEntry.removeThread).entry q =
            m.ProcessTable.entry q := Function.update_of_ne hqp _ _
        have hne : (m.ProcessTable.entry q).space ≠ s := fun heq =>
          hqp (h.table.spaces q hq p hp (heq.trans hps.symm))
        rw [hother, if_neg hne]
        omega
  · rename_i hmore
    have halone := hlast.mp (by omega)
    split
    · -- the machine halts
      exact h.same h.stacked rfl rfl
        (fun s' sp' hs => ⟨sp', hs, rfl⟩) rfl
    · obtain ⟨k₁, hlay, hdelete⟩ := VM.deleteSpace_layout m.vm s junk
      obtain ⟨hok, hmem⟩ := h.table.deleteProcess s
      apply h.left (m.leave t s p pages junk .delete) ht hstage
      · show Function.update (VM.deleteSpace m.vm s junk).threads t none = _
        rw [hdelete]
        show Function.update k₁.threads t none = _
        rw [hlay.threads]
      · show (VM.deleteSpace m.vm s junk).threadIDCount = _
        rw [hdelete]
        exact hlay.threadIDCount
      · rfl
      · rfl
      · rfl
      · exact h.stacked.delete halone junk
      · exact hok
      · intro v s' sp' hv hvs hs
        have hs : (VM.deleteSpace m.vm s junk).spaces s' = some sp' := hs
        have hne : s' ≠ s := by
          rintro rfl
          exact hv (halone v hvs)
        rw [hdelete] at hs
        apply hlay.threadTable
        rw [← hs]
        exact (Function.update_of_ne hne _ _).symm
      · intro q hq
        obtain ⟨hq, hne⟩ := (hmem q).mp hq
        obtain ⟨v, hv⟩ := h.used q hq
        refine ⟨hq, v, ?_, hv⟩
        rintro rfl
        cases ht.symm.trans hv
        exact hne rfl
      · rintro q hq ⟨v, hv, hvs⟩
        refine (hmem q).mpr ⟨hq, fun heq => ?_⟩
        rw [heq] at hvs
        exact hv (halone v hvs)
      · exact fun _ => rfl
      · intro q hq
        have hne := ((hmem q).mp hq).2
        rw [if_neg hne]
        exact Int.add_zero _

end Leaving

/-! ### Steps -/

section Steps

variable {t : Nat} {space : Option Nat} (h : Counted m) (ht : m.vm.threads t = some space)

include h ht

/-- **A thread goes on in another stage**, and locks and `execCalled` change. -/
theorem goTo (stage : Stage) {execCalled : Int} (execLock kernel_threadLock : Threads.Lock)
    (hnum : ∀ s, threadsOf s (some space) (m.stage t) = threadsOf s (some space) stage)
    (hexec : execCalled + pendingOf (some space) (m.stage t) =
      m.execCalled + pendingOf (some space) stage)
    (hlocated : space = none ↔ stage = .StartProcess ∨ stage = .kernel_exec)
    (hfirst : stage ≠ .StartProcess)
    (hkernel : m.stage t ≠ .kernel_thread ∧ stage ≠ .kernel_thread)
    (hleaving : ∀ s p, space = some s → stage = .ExitLock p ∨ stage = .ExitCase p →
      ∃ e ∈ m.ProcessTable.entries, p = some e ∧ (m.ProcessTable.entry e).space = s) :
    Counted { m.goTo t stage with
      execCalled := execCalled
      execLock := execLock
      kernel_threadLock := kernel_threadLock } := by
  refine h.moved stage ht h.stacked rfl rfl rfl h.table rfl (fun _ => rfl)
    (fun p _ => ?_) hexec hlocated hfirst hleaving (fun u s sp hu hs => ?_) rfl
  · rw [hnum]
    rfl
  · rw [h.stack u s sp hu hs]
    by_cases heq : u = t
    · subst heq
      have hself : (m.goTo u stage).stage u = stage := Function.update_self _ _ _
      refine ⟨fun hwas => absurd hwas hkernel.1, fun hnow => ?_⟩
      exact absurd (hself.symm.trans hnow) hkernel.2
    · have hother : (m.goTo t stage).stage u = m.stage u := Function.update_of_ne heq _ _
      exact iff_of_eq (congrArg (· = Stage.kernel_thread) hother.symm)

/-- A thread in its program is in a space. -/
theorem space_some (hstage : m.stage t ≠ .StartProcess ∧ m.stage t ≠ .kernel_exec) :
    ∃ s, space = some s := by
  cases space with
  | some s => exact ⟨s, rfl⟩
  | none =>
    rcases (h.located t none ht).mp rfl with hstart | hexec
    · exact absurd hstart hstage.1
    · exact absurd hexec hstage.2

/-- **`Fork_Syscall` counts the thread it will make.** -/
theorem forkCount (hcur : m.vm.currentThread = some t) (hstage : m.stage t = .ForkCount) :
    Counted (m.forkCount t) := by
  obtain ⟨s, rfl⟩ := h.space_some ht (by simp [hstage])
  obtain ⟨p, hp, hget, hps⟩ := h.getProcessEntry ht
  have hentry : m.currentEntry = some p := by
    simp [Machine.currentEntry, VM.Kernel.currentSpace, hcur, ht, hget]
  unfold Machine.forkCount
  rw [hentry]
  have hspace : ∀ q, ((m.ProcessTable.modEntry p ProcessTableEntry.addThread).entry q).space =
      (m.ProcessTable.entry q).space := by
    intro q
    by_cases hq : q = p
    · subst hq
      simp [ProcessTableClass.modEntry, ProcessTableEntry.addThread]
    · simp [ProcessTableClass.modEntry, hq]
  refine h.moved .ForkThread ht h.stacked rfl rfl rfl
    (h.table.modEntry p fun _ => rfl) rfl hspace (fun q hq => ?_) ?_ ?_ (by simp) ?_ ?_ rfl
  · show ((m.ProcessTable.modEntry p ProcessTableEntry.addThread).entry q).numThreads + _ = _
    by_cases hqp : q = p
    · subst hqp
      have hself : (m.ProcessTable.modEntry q ProcessTableEntry.addThread).entry q =
          (m.ProcessTable.entry q).addThread := Function.update_self _ _ _
      rw [hself, hps, hstage]
      simp [threadsOf, ProcessTableEntry.addThread]
      omega
    · have hother : (m.ProcessTable.modEntry p ProcessTableEntry.addThread).entry q =
          m.ProcessTable.entry q := Function.update_of_ne hqp _ _
      have hne : (m.ProcessTable.entry q).space ≠ s := fun heq =>
        hqp (h.table.spaces q hq p hp (heq.trans hps.symm))
      rw [hother]
      simp [threadsOf, Ne.symm hne]
  · rw [hstage]
    rfl
  · simp
  · intro s' q _ hleave
    simp at hleave
  · intro u s' sp hu hs
    rw [h.stack u s' sp hu hs]
    by_cases heq : u = t
    · subst heq
      have hself : (m.goTo u .ForkThread).stage u = .ForkThread := Function.update_self _ _ _
      refine ⟨fun hwas => ?_, fun hnow => ?_⟩
      · cases hstage.symm.trans hwas
      · cases hself.symm.trans hnow
    · have hother : (m.goTo t .ForkThread).stage u = m.stage u := Function.update_of_ne heq _ _
      exact iff_of_eq (congrArg (· = Stage.kernel_thread) hother.symm)

/-- **The first thing a forked thread does** is to make its stack. -/
theorem kernel_thread (hcur : m.vm.currentThread = some t) (hstage : m.stage t = .kernel_thread)
    (junk : Nat → Int) : Counted (m.kernel_thread t junk) := by
  obtain ⟨s, rfl⟩ := h.space_some ht (by simp [hstage])
  obtain ⟨sp, hsp⟩ := h.stacked.spaces t s ht
  have hrunning : m.vm.running = some (t, s, sp) := by
    simp [VM.Kernel.running, hcur, ht, hsp]
  unfold Machine.kernel_thread
  rw [hrunning]
  refine h.moved .user ht (h.stacked.fork (h.lt_threadIDCount ht) hsp junk) rfl rfl rfl
    h.table rfl (fun _ => rfl) (fun p _ => ?_) ?_ (by simp) (by simp) (by simp)
    (fun u s' sp' hu hs => ?_) rfl
  · rw [hstage]
    rfl
  · rw [hstage]
    rfl
  · have hself : (m.goTo t .user).stage t = .user := Function.update_self _ _ _
    have hother : ∀ u, u ≠ t → (m.goTo t .user).stage u = m.stage u :=
      fun u hu => Function.update_of_ne hu _ _
    show sp'.threadTable u = none ↔ (m.goTo t .user).stage u = .kernel_thread
    by_cases hss : s' = s
    · subst hss
      have hnew : (m.vm.setSpace s' (sp.fork t junk)).spaces s' = some (sp.fork t junk) :=
        Function.update_self _ _ _
      have hsp' : sp' = sp.fork t junk := Option.some.inj (hs.symm.trans hnew)
      subst hsp'
      by_cases heq : u = t
      · subst heq
        rw [hself]
        simp [VM.AddrSpace.fork]
      · rw [hother u heq, ← h.stack u s' sp hu hsp]
        simp [VM.AddrSpace.fork, heq]
    · have hold : (m.vm.setSpace s (sp.fork t junk)).spaces s' = m.vm.spaces s' :=
        Function.update_of_ne hss _ _
      have hne : u ≠ t := by
        rintro rfl
        cases ht.symm.trans hu
        exact hss rfl
      rw [hother u hne]
      exact h.stack u s' sp' hu (hold.symm.trans hs)

/-- **`Exit_Syscall` finds the entry of its process.** -/
theorem startExit (hcur : m.vm.currentThread = some t) (hstage : m.stage t = .user) :
    Counted (m.Exit t) := by
  obtain ⟨s, rfl⟩ := h.space_some ht (by simp [hstage])
  obtain ⟨p, hp, hget, hps⟩ := h.getProcessEntry ht
  have hentry : m.currentEntry = some p := by
    simp [Machine.currentEntry, VM.Kernel.currentSpace, hcur, ht, hget]
  refine h.goTo ht (.ExitLock m.currentEntry) _ _ (fun s' => ?_) ?_ (by simp) (by simp)
    (by simp [hstage]) fun s' q hs' hq => ?_
  · rw [hstage]
    rfl
  · rw [hstage]
    rfl
  · cases hs'
    rcases hq with hq | hq
    · cases hq
      exact ⟨p, hp, hentry, hps⟩
    · cases hq

/-- **A piece of a syscall** keeps the counters exact. -/
theorem resume (hcur : m.vm.currentThread = some t) (exe : VM.Executable) (junk : Nat → Int)
    (hstep : m.resume t exe junk (m.stage t) = some m') : Counted m' := by
  cases hstage : m.stage t with
  | user =>
    rw [hstage] at hstep
    cases hstep
  | StartProcess =>
    rw [hstage] at hstep
    cases hstep
    obtain rfl : space = none := (h.located t space ht).mpr (.inl hstage)
    exact h.placed ht exe (.inl rfl) (by rw [hstage]; rfl)
  | ForkCount =>
    rw [hstage] at hstep
    cases hstep
    exact h.forkCount ht hcur hstage
  | ForkThread =>
    rw [hstage] at hstep
    cases hstep
    obtain ⟨s, rfl⟩ := h.space_some ht (by simp [hstage])
    have hspace : m.vm.currentSpace = some s := by simp [VM.Kernel.currentSpace, hcur, ht]
    unfold Machine.forkThread
    rw [hspace]
    refine h.spawned ht (.inr ⟨rfl, rfl⟩) (fun s' => ?_) ?_ (by simp [hstage])
    · rw [hstage]
      by_cases hs : s = s'
      · simp [threadsOf, hs]
      · simp [threadsOf, hs]
    · rw [hstage]
      rfl
  | kernel_thread =>
    rw [hstage] at hstep
    cases hstep
    exact h.kernel_thread ht hcur hstage junk
  | ExecCount =>
    rw [hstage] at hstep
    cases hstep
    obtain ⟨s, rfl⟩ := h.space_some ht (by simp [hstage])
    refine h.goTo ht .ExecThread _ _ (fun s' => ?_) ?_ (by simp) (by simp)
      (by simp [hstage]) (by simp)
    · rw [hstage]
      rfl
    · rw [hstage]
      simp [pendingOf, Stage.pending]
  | ExecThread =>
    rw [hstage] at hstep
    cases hstep
    obtain ⟨s, rfl⟩ := h.space_some ht (by simp [hstage])
    refine h.spawned ht (.inl ⟨rfl, rfl⟩) (fun s' => ?_) ?_ (by simp [hstage])
    · rw [hstage]
      simp [threadsOf]
    · rw [hstage]
      rfl
  | kernel_exec =>
    rw [hstage] at hstep
    cases hstep
    obtain rfl : space = none := (h.located t space ht).mpr (.inr hstage)
    have hplaced := h.placed ht exe (.inr rfl) (by rw [hstage]; rfl)
    exact hplaced.same hplaced.stacked rfl rfl (fun s sp hs => ⟨sp, hs, rfl⟩) rfl
  | kernel_execCount =>
    rw [hstage] at hstep
    cases hstep
    obtain ⟨s, rfl⟩ := h.space_some ht (by simp [hstage])
    refine h.goTo ht .user _ _ (fun s' => ?_) ?_ (by simp) (by simp)
      (by simp [hstage]) (by simp)
    · rw [hstage]
      rfl
    · rw [hstage]
      simp [pendingOf, Stage.pending]
  | ExitLock p =>
    rw [hstage] at hstep
    cases hstep
    obtain ⟨s, rfl⟩ := h.space_some ht (by simp [hstage])
    refine h.goTo ht (.ExitCase p) _ _ (fun s' => ?_) ?_ (by simp) (by simp)
      (by simp [hstage]) fun s' q hs' hq => ?_
    · rw [hstage]
      rfl
    · rw [hstage]
      rfl
    · cases hs'
      rcases hq with hq | hq
      · cases hq
      · cases hq
        exact h.leaving t s p ht (.inl hstage)
  | ExitCase p =>
    rw [hstage] at hstep
    cases hstep
    obtain ⟨s, rfl⟩ := h.space_some ht (by simp [hstage])
    obtain ⟨e, -, rfl, -⟩ := h.leaving t s p ht (.inr hstage)
    obtain ⟨sp, hsp⟩ := h.stacked.spaces t s ht
    have hrunning : m.vm.running = some (t, s, sp) := by
      simp [VM.Kernel.running, hcur, ht, hsp]
    unfold Machine.exit
    dsimp only
    rw [hrunning]
    exact h.exit ht hstage hsp junk

/-- **A step of the running thread.** -/
theorem act (hcur : m.vm.currentThread = some t) {op : Op} (hstep : m.act t op = some m') :
    Counted m' := by
  cases op with
  | run u => cases hstep
  | access op =>
    unfold Machine.act at hstep
    dsimp only at hstep
    split at hstep
    swap
    · cases hstep
    rename_i haccess
    obtain ⟨vm, hvm, rfl⟩ := Option.map_eq_some_iff.mp hstep
    obtain ⟨hen, event, hnext⟩ := VM.step_of_step? hvm
    have hspec := VM.next_spec hen hnext
    have haddress : op.address.isSome = true := by
      cases op with
      | load | store => rfl
      | run | newThread | create | fork | exit | delete => cases haccess
    have hlay := VM.sameLayout_access h.stacked.sound haddress hspec
    have hstacks := h.stacked.sameLayout (h.stacked.sound.stepSpec hspec) hlay
    exact h.same hstacks hlay.threads hlay.threadIDCount (fun s sp hs => hlay.threadTable hs) rfl
  | Fork =>
    unfold Machine.act at hstep
    dsimp only at hstep
    split at hstep
    · rename_i hstage
      cases hstep
      obtain ⟨s, rfl⟩ := h.space_some ht (by simp [hstage])
      refine h.goTo ht .ForkCount _ _ (fun s' => ?_) ?_ (by simp) (by simp)
        (by simp [hstage]) (by simp)
      · rw [hstage]
        rfl
      · rw [hstage]
        rfl
    · cases hstep
  | Exec =>
    unfold Machine.act at hstep
    dsimp only at hstep
    split at hstep
    · rename_i hstage
      cases hstep
      obtain ⟨s, rfl⟩ := h.space_some ht (by simp [hstage])
      refine h.goTo ht .ExecCount _ _ (fun s' => ?_) ?_ (by simp) (by simp)
        (by simp [hstage]) (by simp)
      · rw [hstage]
        rfl
      · rw [hstage]
        rfl
    · cases hstep
  | Exit =>
    unfold Machine.act at hstep
    dsimp only at hstep
    split at hstep
    · rename_i hstage
      cases hstep
      exact h.startExit ht hcur hstage
    · cases hstep
  | resume exe junk => exact h.resume ht hcur exe junk hstep

end Steps

/-- The switch to another thread. -/
theorem run (h : Counted m) (t : Nat) : Counted { m with vm := VM.schedulerRun m.vm t } := by
  have hkeep : ∀ k, SameLayout k (if k.currentSpace.isSome then VM.saveState k else k) := by
    intro k
    split
    · exact (VM.tlbOnly_saveState k).sameLayout
    · exact .refl k
  have hlay := hkeep m.vm
  refine h.same (h.stacked.run t) ?_ ?_ (fun s sp hs => ?_) rfl
  · exact hlay.threads
  · exact hlay.threadIDCount
  · exact hlay.threadTable hs

/-- What a step is, and who takes it. -/
theorem step_cases {op : Op} (hstep : MachineStep m op m') : m.halted = false ∧
    ((∃ t, op = .run t ∧ (m.vm.threads t).isSome = true ∧
        m' = { m with vm := VM.schedulerRun m.vm t }) ∨
      ∃ t space, m.vm.currentThread = some t ∧ m.vm.threads t = some space ∧
        m.act t op = some m') := by
  unfold MachineStep Machine.next at hstep
  split at hstep
  · cases hstep
  rename_i hruns
  refine ⟨by simpa using fun hh => hruns (.inl hh), ?_⟩
  split at hstep
  · rename_i t
    split at hstep
    · rename_i hready
      cases hstep
      exact .inl ⟨t, rfl, hready.1, rfl⟩
    · cases hstep
  · split at hstep
    · cases hstep
    · rename_i t hcur
      split at hstep
      · rename_i hready
        obtain ⟨space, ht⟩ := Option.isSome_iff_exists.mp hready.1
        exact .inr ⟨t, space, hcur, ht, hstep⟩
      · cases hstep

theorem step (h : Counted m) {op : Op} (hstep : MachineStep m op m') : Counted m' := by
  obtain ⟨-, hrun | hact⟩ := step_cases hstep
  · obtain ⟨t, -, -, rfl⟩ := hrun
    exact h.run t
  · obtain ⟨t, space, hcur, ht, hact⟩ := hact
    exact h.act ht hcur hact

end Counted

theorem counted_of_reachable {useFIFO : Bool} {m : Machine}
    (h : Reachable MachineStep (.init useFIFO) m) : Counted m :=
  h.invariant (counted_init useFIFO) fun _ _ _ h => h.step

/-! ## Runs of the machine below -/

/-- **The syscalls use the machine as it allows**: what one of their steps does to threads,
spaces and memory is a step of the paging machine, or nothing. `Exit_Syscall` deletes a space
only when no other thread is in it. -/
theorem vm_step {m m' : Machine} (h : Counted m) {op : Op} (hstep : MachineStep m op m') :
    m'.vm = m.vm ∨ ∃ op', VM.Step m.vm op' m'.vm := by
  obtain ⟨-, ⟨t, -, ht, rfl⟩ | ⟨t, space, hcur, ht, hact⟩⟩ := Counted.step_cases hstep
  · exact .inr ⟨.run t, ht, .quiet, rfl⟩
  cases op with
  | run u => cases hact
  | access op =>
    unfold Machine.act at hact
    dsimp only at hact
    split at hact
    · obtain ⟨vm, hvm, rfl⟩ := Option.map_eq_some_iff.mp hact
      exact .inr ⟨op, VM.step_of_step? hvm⟩
    · cases hact
  | Fork | Exec | Exit =>
    unfold Machine.act at hact
    dsimp only at hact
    split at hact
    · cases hact
      exact .inl rfl
    · cases hact
  | resume exe junk =>
    have hact : m.resume t exe junk (m.stage t) = some m' := hact
    have hin : ∀ {s}, space = some s → ∃ sp, m.vm.spaces s = some sp ∧
        m.vm.running = some (t, s, sp) ∧ m.vm.currentSpace = some s := by
      rintro s rfl
      obtain ⟨sp, hsp⟩ := h.stacked.spaces t s ht
      exact ⟨sp, hsp, by simp [VM.Kernel.running, hcur, ht, hsp],
        by simp [VM.Kernel.currentSpace, hcur, ht]⟩
    have hcreate : space = none →
        VM.Step m.vm (.create exe) (VM.createSpace m.vm t exe) := by
      rintro rfl
      exact ⟨by simp [VM.enabled, hcur, ht], .quiet, by simp [VM.next, hcur]⟩
    cases hstage : m.stage t with
    | user =>
      rw [hstage] at hact
      cases hact
    | StartProcess =>
      rw [hstage] at hact
      cases hact
      exact .inr ⟨_, hcreate ((h.located t space ht).mpr (.inl hstage))⟩
    | kernel_exec =>
      rw [hstage] at hact
      cases hact
      exact .inr ⟨_, hcreate ((h.located t space ht).mpr (.inr hstage))⟩
    | ForkCount =>
      rw [hstage] at hact
      cases hact
      left
      show (m.forkCount t).vm = _
      unfold Machine.forkCount
      split <;> rfl
    | ExecCount | kernel_execCount | ExitLock =>
      rw [hstage] at hact
      cases hact
      exact .inl rfl
    | ForkThread =>
      rw [hstage] at hact
      cases hact
      obtain ⟨s, hs⟩ := h.space_some ht (by simp [hstage])
      obtain ⟨sp, -, hrunning, hspace⟩ := hin hs
      refine .inr ⟨.newThread true, ?_, .quiet, rfl⟩
      simp [VM.enabled, hrunning]
    | ExecThread =>
      rw [hstage] at hact
      cases hact
      exact .inr ⟨.newThread false, rfl, .quiet, rfl⟩
    | kernel_thread =>
      rw [hstage] at hact
      cases hact
      obtain ⟨s, hs⟩ := h.space_some ht (by simp [hstage])
      obtain ⟨sp, hsp, hrunning, -⟩ := hin hs
      have hnone := (h.stack t s sp (hs ▸ ht) hsp).mpr hstage
      refine .inr ⟨.fork junk, by simp [VM.enabled, hrunning, hnone], .quiet, ?_⟩
      simp [VM.next, Machine.kernel_thread, hrunning]
    | ExitCase p =>
      rw [hstage] at hact
      cases hact
      obtain ⟨s, rfl⟩ := h.space_some ht (by simp [hstage])
      obtain ⟨sp, hsp, hrunning, -⟩ := hin rfl
      obtain ⟨e, he, rfl, hes⟩ := h.leaving t s p ht (.inr hstage)
      obtain ⟨pages, hpages⟩ : ∃ pages, sp.threadTable t = some pages := by
        cases htab : sp.threadTable t with
        | some pages => exact ⟨pages, rfl⟩
        | none => cases hstage.symm.trans ((h.stack t s sp ht hsp).mp htab)
      have hexit : m.exit t junk (some e) =
          m.leave t s e ((sp.threadTable t).getD []) junk (m.exitCase e) := by
        simp [Machine.exit, hrunning]
      rw [hexit]
      cases hcase : m.exitCase e with
      | Exit =>
        have hlength := le_of_eq (h.stacked.length s sp t pages hsp hpages).symm
        refine .inr ⟨.exit, by simp [VM.enabled, hrunning, hpages], .quiet, ?_⟩
        rw [hpages, Option.getD_some, m.leave_Exit hlength]
        simp [VM.next, hrunning, hpages, VM.exitStack_iff.mpr ⟨hlength, rfl⟩]
      | Halt => exact .inl rfl
      | delete =>
        have halone : ∀ u, m.vm.threads u = some (some s) → u = t := by
          apply (h.threads_eq_one_iff ht hstage).mp
          have hcount := h.numThreads e he
          have hone := h.one_le_threads ht hstage
          rw [hes] at hcount
          unfold Machine.exitCase at hcase
          split at hcase
          · cases hcase
          · omega
        refine .inr ⟨.delete junk, ?_, .quiet, by simp [VM.next, hrunning, Machine.leave]⟩
        simp only [VM.enabled, hrunning, Option.any_some, List.all_eq_true, Bool.or_eq_true,
          decide_eq_true_eq]
        intro u _
        by_cases hu : u = t
        · exact .inl hu
        · exact .inr fun hus => hu (halone u hus)

/-- What a run of the syscalls does to memory is a run of the paging machine. -/
theorem vm_reachable {useFIFO : Bool} {m : Machine}
    (h : Reachable MachineStep (.init useFIFO) m) :
    Reachable VM.Step (VM.Kernel.init useFIFO) m.vm := by
  refine (h.invariant (I := fun m => Counted m ∧ Reachable VM.Step (VM.Kernel.init useFIFO) m.vm)
    ⟨counted_init useFIFO, [], .nil _⟩ ?_).2
  rintro m op m' ⟨hcounted, hreach⟩ hstep
  refine ⟨hcounted.step hstep, ?_⟩
  rcases vm_step hcounted hstep with hsame | ⟨op', hop⟩
  · rw [hsame]
    exact hreach
  · exact hreach.tail hop

/-! ## The result -/

namespace Machine

variable (m : Machine)

/-- The threads of the process that have not left. -/
def members (s : Nat) : List Nat :=
  (List.range m.vm.threadIDCount).filter fun u => decide (m.vm.threads u = some (some s))

/-- Those of them for which `Fork_Syscall` has counted a thread that it has not made. -/
def forking (s : Nat) : List Nat :=
  (m.members s).filter fun u => decide (m.stage u = .ForkThread)

/-- The threads for which `execCalled` stands: one that `Exec_Syscall` is about to make, or
that has not come to its decrement in `kernel_exec`. -/
def execing : List Nat :=
  (List.range m.vm.threadIDCount).filter fun u => (m.vm.threads u).isSome && (m.stage u).pending

theorem threads_eq (s : Nat) : m.threads s = (m.members s).length + (m.forking s).length := by
  unfold threads forking members
  generalize m.vm.threadIDCount = n
  induction n with
  | zero => rfl
  | succ n ih =>
    rw [sumTo_succ, ih, List.range_succ, List.filter_append, List.filter_append,
      List.length_append, List.length_append]
    by_cases hs : m.vm.threads n = some (some s)
    · by_cases hfork : m.stage n = .ForkThread
      · simp [threadsOf, hs, hfork]
        omega
      · simp [threadsOf, hs, hfork]
        omega
    · simp [threadsOf, hs]

theorem pending_eq : m.pending = m.execing.length := by
  unfold pending execing
  generalize m.vm.threadIDCount = n
  induction n with
  | zero => rfl
  | succ n ih =>
    rw [sumTo_succ, ih, List.range_succ, List.filter_append, List.length_append]
    by_cases hlive : (m.vm.threads n).isSome = true
    · by_cases hpend : (m.stage n).pending = true
      · simp [pendingOf, hlive, hpend]
      · simp [pendingOf, hlive, hpend]
    · simp [pendingOf, hlive]

end Machine

/-- Of memory and spaces, only the stack of the thread `t` in the space `s` is freed: its pages
are not valid any more, they are no pages of another stack, and all other pages stay. -/
structure FreesStack (k : VM.Kernel) (t s : Nat) (k' : VM.Kernel) : Prop where
  spaces : ∀ s', (k'.spaces s').isSome = (k.spaces s').isSome
  stack : ∃ sp pages, k.spaces s = some sp ∧ sp.threadTable t = some pages ∧
    pages.length = VM.stackPageCount ∧
    (∀ v ∈ pages, (k'.page s v).valid = false) ∧
    (∀ s' v, ¬ (s' = s ∧ v ∈ pages) → k'.page s' v = k.page s' v) ∧
    ∀ u pages', u ≠ t → sp.threadTable u = some pages' → ∀ v ∈ pages, v ∉ pages'

/-- What `Exit_Syscall` of the thread `t` in the space `s` has to do. -/
structure ExitRight (m : Machine) (t s : Nat) (m' : Machine) : Prop where
  /-- Every thread is counted in its process or in `execCalled`. -/
  counted : ∀ u, (m.vm.threads u).isSome = true →
    (∃ p ∈ m.ProcessTable.entries, u ∈ m.members (m.ProcessTable.entry p).space) ∨ u ∈ m.execing
  halts : m'.halted = true ↔ ∀ u, (m.vm.threads u).isSome = true → u = t
  deletes : m'.vm.spaces s = none ↔ (∀ u, m.vm.threads u = some (some s) → u = t) ∧
    ∃ u, (m.vm.threads u).isSome = true ∧ u ≠ t
  others : ∀ s', s' ≠ s → (m'.vm.spaces s').isSome = (m.vm.spaces s').isSome
  frees : m'.halted = false → m'.vm.spaces s ≠ none → FreesStack m.vm t s m'.vm

section ExitRight

variable {m : Machine} {t s p : Nat} (h : Counted m) (ht : m.vm.threads t = some (some s))
  (hstage : m.stage t = .ExitCase (some p))

include h

/-- A thread is in a process of the table, or `execCalled` counts it, or it is the main thread
before its process is there. -/
theorem Counted.located_cases {u : Nat} (hu : (m.vm.threads u).isSome = true) :
    (∃ q ∈ m.ProcessTable.entries, m.vm.threads u = some (some (m.ProcessTable.entry q).space)) ∨
      m.stage u = .kernel_exec ∨ m.stage u = .StartProcess := by
  obtain ⟨space, hu⟩ := Option.isSome_iff_exists.mp hu
  cases space with
  | some s' =>
    obtain ⟨q, hq, rfl⟩ := h.listed u s' hu
    exact .inl ⟨q, hq, hu⟩
  | none =>
    rcases (h.located u none hu).mp rfl with hstart | hexec
    · exact .inr (.inr hstart)
    · exact .inr (.inl hexec)

include ht hstage

/-- **The test for `Halt` succeeds exactly for the only thread.** -/
theorem Counted.exitCase_halt_iff :
    m.exitCase p = .Halt ↔ ∀ u, (m.vm.threads u).isSome = true → u = t := by
  obtain ⟨hp, hps⟩ := h.entry_of_exit ht hstage
  have hcount := h.numThreads p hp
  rw [hps] at hcount
  have hlast := h.threads_eq_one_iff ht hstage
  have hexec := h.execCalled
  have hlive : (m.vm.threads t).isSome = true := by rw [ht]; rfl
  constructor
  · intro hhalt u hu
    unfold Machine.exitCase at hhalt
    split at hhalt
    · cases hhalt
    split at hhalt
    swap
    · cases hhalt
    rename_i htest
    obtain ⟨hone, hsingle, hzero⟩ := htest
    rcases h.located_cases hu with ⟨q, hq, huq⟩ | hkernel | hstart
    · -- the table has one entry
      obtain ⟨r, hr⟩ := List.length_eq_one_iff.mp hsingle
      rw [hr, List.mem_singleton] at hp hq
      rw [hq, ← hp, hps] at huq
      exact hlast.mp (by omega) u huq
    · -- `execCalled` would count it
      obtain ⟨space, hspace⟩ := Option.isSome_iff_exists.mp hu
      have hle := le_sumTo (h.lt_threadIDCount hspace) fun u => pendingOf (m.vm.threads u) (m.stage u)
      have hcounts : pendingOf (m.vm.threads u) (m.stage u) = 1 := by
        simp [pendingOf, hu, hkernel, Stage.pending]
      rw [hcounts] at hle
      unfold Machine.pending at hexec
      omega
    · exact (h.first u hu hstart t hlive).symm
  · intro honly
    have hone := hlast.mpr fun u hu => honly u (by rw [hu]; rfl)
    have hsingle : m.ProcessTable.getNumProcesses = 1 := by
      have hall : ∀ q ∈ m.ProcessTable.entries, q = p := by
        intro q hq
        obtain ⟨u, hu⟩ := h.used q hq
        obtain rfl := honly u (by rw [hu]; rfl)
        rw [ht] at hu
        exact h.table.spaces q hq p hp
          ((Option.some.inj (Option.some.inj hu)).symm.trans hps.symm)
      have hnodup := h.table.nodup
      unfold ProcessTableClass.getNumProcesses
      match hentries : m.ProcessTable.entries with
      | [] =>
        rw [hentries] at hp
        cases hp
      | [_] => rfl
      | a :: b :: rest =>
        rw [hentries] at hall hnodup
        obtain rfl := hall a List.mem_cons_self
        obtain rfl := hall b (List.mem_cons_of_mem _ List.mem_cons_self)
        exact absurd List.mem_cons_self (List.nodup_cons.mp hnodup).1
    have hzero : m.pending = 0 := by
      apply sumTo_zero
      intro u _
      by_cases hu : u = t
      · subst hu
        simp [pendingOf, hstage, Stage.pending]
      · have hnone : m.vm.threads u = none := by
          cases hthread : m.vm.threads u with
          | none => rfl
          | some space => exact absurd (honly u (by rw [hthread]; rfl)) hu
        rw [hnone]
        rfl
    unfold Machine.exitCase
    rw [if_neg (by omega), if_pos ⟨by omega, hsingle, by omega⟩]

/-- **The space is deleted by the last thread of a process** that is not the last one. -/
theorem Counted.exitCase_delete_iff :
    m.exitCase p = .delete ↔ (∀ u, m.vm.threads u = some (some s) → u = t) ∧
      ∃ u, (m.vm.threads u).isSome = true ∧ u ≠ t := by
  obtain ⟨hp, hps⟩ := h.entry_of_exit ht hstage
  have hcount := h.numThreads p hp
  rw [hps] at hcount
  have hlast := h.threads_eq_one_iff ht hstage
  have hone := h.one_le_threads ht hstage
  have hhalt := h.exitCase_halt_iff ht hstage
  have hothers : (∃ u, (m.vm.threads u).isSome = true ∧ u ≠ t) ↔ m.exitCase p ≠ .Halt := by
    rw [Ne, hhalt]
    constructor
    · rintro ⟨u, hu, hne⟩ honly
      exact hne (honly u hu)
    · intro hnot
      by_contra hnone
      exact hnot fun u hu => by_contra fun hne => hnone ⟨u, hu, hne⟩
  rw [hothers, ← hlast]
  unfold Machine.exitCase
  split
  · constructor
    · rintro ⟨⟩
    · rintro ⟨heq, -⟩
      omega
  · split
    · constructor
      · rintro ⟨⟩
      · exact fun hboth => absurd rfl hboth.2
    · exact ⟨fun _ => ⟨by omega, by simp⟩, fun _ => rfl⟩

/-- **What `Exit_Syscall` does.** -/
theorem exit_right (hcur : m.vm.currentThread = some t) (hhalted : m.halted = false)
    {exe : VM.Executable} {junk : Nat → Int} {m' : Machine}
    (hstep : MachineStep m (.resume exe junk) m') : ExitRight m t s m' := by
  obtain ⟨sp, hsp⟩ := h.stacked.spaces t s ht
  have hrunning : m.vm.running = some (t, s, sp) := by
    simp [VM.Kernel.running, hcur, ht, hsp]
  obtain ⟨pages, hpages⟩ : ∃ pages, sp.threadTable t = some pages := by
    cases htab : sp.threadTable t with
    | some pages => exact ⟨pages, rfl⟩
    | none => cases hstage.symm.trans ((h.stack t s sp ht hsp).mp htab)
  have hm' : m' = m.leave t s p pages junk (m.exitCase p) := by
    obtain ⟨-, ⟨u, hop, -⟩ | ⟨u, space, hu, -, hact⟩⟩ := Counted.step_cases hstep
    · cases hop
    · cases hcur.symm.trans hu
      have hact : m.resume t exe junk (m.stage t) = some m' := hact
      rw [hstage] at hact
      cases hact
      simp [Machine.exit, hrunning, hpages]
  have hhalt := h.exitCase_halt_iff ht hstage
  have hdelete := h.exitCase_delete_iff ht hstage
  have hrange := h.stacked.stackPages hsp hpages
  have hlay := VM.clearStack_sameLayout (k := m.vm) hrange
  have hsome : ∀ {k k' : VM.Kernel}, SameLayout k k' →
      ∀ s', (k'.spaces s').isSome = (k.spaces s').isSome := by
    intro k k' hl s'
    have hshape := congrArg Option.isSome (congrFun hl.shape s')
    simpa [VM.Kernel.shape] using hshape
  have hcounted : ∀ u, (m.vm.threads u).isSome = true →
      (∃ q ∈ m.ProcessTable.entries, u ∈ m.members (m.ProcessTable.entry q).space) ∨
        u ∈ m.execing := by
    intro u hu
    obtain ⟨space, hspace⟩ := Option.isSome_iff_exists.mp hu
    have hmade := List.mem_range.mpr (h.lt_threadIDCount hspace)
    rcases h.located_cases hu with ⟨q, hq, huq⟩ | hkernel | hstart
    · exact .inl ⟨q, hq, List.mem_filter.mpr ⟨hmade, by simpa using huq⟩⟩
    · exact .inr (List.mem_filter.mpr ⟨hmade, by simp [hu, hkernel, Stage.pending]⟩)
    · -- the main thread is past `StartProcess` when a thread exits
      have hfirst := h.first u hu hstart t (by rw [ht]; rfl)
      subst hfirst
      cases hstage.symm.trans hstart
  subst hm'
  cases hcase : m.exitCase p with
  | Exit =>
    rw [hcase] at hhalt hdelete
    have hlength := h.stacked.length s sp t pages hsp hpages
    rw [m.leave_Exit (le_of_eq hlength.symm)]
    have hkept : ((VM.clearStack m.vm s pages).spaces s).isSome = true := by
      have hsame := hsome hlay s
      rw [hsp] at hsame
      exact hsame
    obtain ⟨hcleared, hothers⟩ := VM.clearStack_page hrange hlength
    refine ⟨hcounted, ?_, ?_, fun s' _ => hsome hlay s', fun _ _ => ⟨fun s' => hsome hlay s', sp, pages, hsp,
      hpages, hlength, fun v hv => (hcleared v hv).1, hothers, ?_⟩⟩
    · rw [← hhalt]
      exact iff_of_false (by simp [Machine.releaseBoth, hhalted]) (by simp)
    · rw [← hdelete]
      refine iff_of_false (fun hnone => ?_) (by simp)
      replace hnone : (VM.clearStack m.vm s pages).spaces s = none := hnone
      rw [hnone] at hkept
      cases hkept
    · intro u pages' hu hpages' v hv hv'
      exact hu (h.stacked.apart s sp u t pages' pages v hsp hpages' hpages hv' hv)
  | Halt =>
    rw [hcase] at hhalt hdelete
    refine ⟨hcounted, ?_, ?_, fun s' _ => rfl, fun hnot => ?_⟩
    · rw [← hhalt]
      exact iff_of_true rfl rfl
    · rw [← hdelete]
      refine iff_of_false (fun hnone => ?_) (by simp)
      have hnone : m.vm.spaces s = none := hnone
      rw [hsp] at hnone
      cases hnone
    · cases hnot
  | delete =>
    rw [hcase] at hhalt hdelete
    obtain ⟨k₁, hlay₁, hdel⟩ := VM.deleteSpace_layout m.vm s junk
    have hspaces : (m.leave t s p pages junk .delete).vm.spaces =
        Function.update k₁.spaces s none := by
      show (VM.deleteSpace m.vm s junk).spaces = _
      rw [hdel]
    refine ⟨hcounted, ?_, ?_, fun s' hs' => ?_, fun _ hnot => ?_⟩
    · rw [← hhalt]
      exact iff_of_false (by simp [Machine.leave, Machine.releaseBoth, hhalted]) (by simp)
    · rw [← hdelete, hspaces]
      exact iff_of_true (Function.update_self _ _ _) rfl
    · rw [hspaces, Function.update_of_ne hs']
      exact hsome hlay₁ s'
    · rw [hspaces] at hnot
      exact absurd (Function.update_self _ _ _) hnot

end ExitRight

/-- **The machine halts with its last user thread and not before.** In every state the counters
are exact and the table holds the processes with a thread; and when a thread comes to the test
in `Exit_Syscall`, its process is known, and the test decides right. -/
theorem halts_with_last_thread {useFIFO : Bool} {m : Machine}
    (h : Reachable MachineStep (.init useFIFO) m) :
    m.crashed = false ∧
    (∀ p ∈ m.ProcessTable.entries, (m.ProcessTable.entry p).numThreads =
      (m.members (m.ProcessTable.entry p).space).length +
        (m.forking (m.ProcessTable.entry p).space).length) ∧
    m.execCalled = m.execing.length ∧
    (∀ s, (∃ p ∈ m.ProcessTable.entries, (m.ProcessTable.entry p).space = s) ↔
      ∃ t, m.vm.threads t = some (some s)) ∧
    ∀ t p exe junk m', m.vm.currentThread = some t → m.stage t = .ExitCase p →
      MachineStep m (.resume exe junk) m' →
      ∃ e s, p = some e ∧ e ∈ m.ProcessTable.entries ∧ (m.ProcessTable.entry e).space = s ∧
        m.vm.threads t = some (some s) ∧ ExitRight m t s m' := by
  have hall := counted_of_reachable h
  refine ⟨hall.crashed, fun p hp => ?_, ?_, fun s => ⟨?_, ?_⟩,
    fun t p exe junk m' hcur hstage hstep => ?_⟩
  · rw [hall.numThreads p hp, m.threads_eq, Int.natCast_add]
  · rw [hall.execCalled, m.pending_eq]
  · rintro ⟨p, hp, rfl⟩
    exact hall.used p hp
  · rintro ⟨t, ht⟩
    exact hall.listed t s ht
  · obtain ⟨hhalted, ⟨u, hop, -⟩ | ⟨u, space, hu, ht, -⟩⟩ := Counted.step_cases hstep
    · cases hop
    cases hcur.symm.trans hu
    obtain ⟨s, rfl⟩ := hall.space_some ht (by simp [hstage])
    obtain ⟨e, he, rfl, hes⟩ := hall.leaving t s p ht (.inr hstage)
    exact ⟨e, s, rfl, he, hes, ht, exit_right hall ht hstage hcur hhalted hstep⟩

/-- The running thread goes on. -/
def goOn : Op := .resume (.blank 100) fun _ => 0

/-- The main thread starts another process and leaves before that one has begun to run. -/
def execAndExit : List Op :=
  [goOn, .Exec, goOn, goOn, .Exit, goOn, goOn, .run 1, goOn, goOn, .Exit, goOn]

theorem halts_with_last_thread_exec : ∃ m m', Reachable MachineStep (.init true) m ∧
    m.vm.currentThread = some 1 ∧ MachineStep m goOn m' ∧ m'.halted = true ∧
    (∀ u, (m.vm.threads u).isSome = true → u = 1) ∧ m.vm.spaces 0 = none := by
  have hrun : (Lib.execute Machine.next (.init true) execAndExit).any (fun m =>
      decide (m.vm.currentThread = some 1 ∧ (m.vm.spaces 0).isNone = true) &&
        decide (m.stage 1 = .ExitCase (some 1)) &&
        (m.next goOn).any fun m' => m'.halted) = true := by
    decide +kernel
  obtain ⟨m, hm, hdec⟩ := (Option.any_eq_true _ _).mp hrun
  obtain ⟨hbefore, hafter⟩ := Bool.and_eq_true_iff.mp hdec
  obtain ⟨hstate, hstage⟩ := Bool.and_eq_true_iff.mp hbefore
  obtain ⟨hcur, hspace⟩ := of_decide_eq_true hstate
  obtain ⟨m', hstep, hhalted⟩ := (Option.any_eq_true _ _).mp hafter
  have hreach : Reachable MachineStep (.init true) m :=
    ⟨_, Lib.path_of_execute (fun _ _ _ => id) hm⟩
  obtain ⟨-, -, -, -, hexit⟩ := halts_with_last_thread hreach
  obtain ⟨_, _, -, -, -, -, hright⟩ := hexit 1 _ _ _ m' hcur (of_decide_eq_true hstage) hstep
  exact ⟨m, m', hreach, hcur, hstep, hhalted, hright.halts.mp hhalted,
    Option.isNone_iff_eq_none.mp hspace⟩

end Nachos.Processes

import Nachos.VM.Stacks

/-!
# Where the stacks are

The stack of a thread is eight consecutive pages at the end of the page table its space has when
the thread gets it, so the stack pointer that `InitRegisters` computes from the size of the table
is in its last page. `AddrSpace::Fork` makes the table longer and keeps what it has, and
`AddrSpace::Exit` gives back the pages of its own thread (`stacks_private`).
-/

namespace Nachos.VM

open Lib (Reachable)

/-! ## `AddrSpace::InitRegisters` -/

def StackReg : Nat := 29

def PCReg : Nat := 34

def NextPCReg : Nat := 35

/-- `AddrSpace::InitRegisters`: the registers of a thread that is to start. -/
def AddrSpace.InitRegisters (sp : AddrSpace) : Nat → Int :=
  Function.update (Function.update (Function.update (fun _ => 0) PCReg 0) NextPCReg 4) StackReg
    (sp.numPages * PageSize - 16)

/-- The stack pointer that `InitRegisters` gives to the thread is in the last page of its
stack. -/
def AddrSpace.PointsIntoStack (sp : AddrSpace) (tid : Nat) : Prop :=
  ∃ pages last, sp.threadTable tid = some pages ∧ pages.getLast? = some last ∧
    (last * PageSize : Int) ≤ sp.InitRegisters StackReg ∧
      sp.InitRegisters StackReg < (last + 1) * PageSize

/-! ## The ranges -/

/-- Every stack is a range of eight pages behind the program. -/
structure AddrSpace.Ranged (sp : AddrSpace) : Prop where
  room : sp.numNonStackPages ≤ sp.numPages
  stack : ∀ tid pages, sp.threadTable tid = some pages → ∃ start,
    pages = List.range' start stackPageCount ∧ sp.numNonStackPages ≤ start ∧
      start + stackPageCount ≤ sp.numPages

/-- The stack at the end of the table is the one the stack pointer is computed for. -/
theorem AddrSpace.pointsIntoStack_of_end {sp : AddrSpace} {tid start : Nat}
    (hpages : sp.threadTable tid = some (List.range' start stackPageCount))
    (hend : sp.numPages = start + stackPageCount) : sp.PointsIntoStack tid := by
  have hlast : (List.range' start stackPageCount).getLast? = some (start + 7) := rfl
  have hpointer : sp.InitRegisters StackReg = sp.numPages * PageSize - 16 :=
    Function.update_self _ _ _
  have hcount : stackPageCount = 8 := rfl
  have hsize : PageSize = 128 := rfl
  refine ⟨_, start + 7, hpages, hlast, ?_, ?_⟩
  · rw [hpointer, hend, hcount, hsize]
    push_cast
    omega
  · rw [hpointer, hend, hcount, hsize]
    push_cast
    omega

theorem AddrSpace.ranged_new (exe : Executable) (tid : Nat) : (AddrSpace.new exe tid).Ranged where
  room := Nat.le_add_right _ _
  stack u pages hpages := by
    simp only [AddrSpace.new, Function.update_apply] at hpages
    split at hpages
    · cases hpages
      exact ⟨_, rfl, le_refl _, le_refl _⟩
    · cases hpages

theorem AddrSpace.Ranged.fork {sp : AddrSpace} (h : sp.Ranged) (tid : Nat) (junk : Nat → Int) :
    (sp.fork tid junk).Ranged where
  room := h.room.trans (Nat.le_add_right _ _)
  stack u pages hpages := by
    simp only [AddrSpace.fork, Function.update_apply] at hpages
    split at hpages
    · cases hpages
      exact ⟨sp.numPages, rfl, h.room, le_refl _⟩
    · obtain ⟨start, hrange, hlow, hhigh⟩ := h.stack u pages hpages
      exact ⟨start, hrange, hlow, hhigh.trans (Nat.le_add_right _ _)⟩

/-- The spaces with their stacks in ranges. -/
def AllRanged (k : Kernel) : Prop := ∀ s sp, k.spaces s = some sp → sp.Ranged

namespace AllRanged

variable {k k' : Kernel}

theorem sameLayout (h : AllRanged k) (hl : SameLayout k k') : AllRanged k' := by
  intro s sp' hs
  have hshape := (congrFun hl.shape s).symm.trans (shape_some hs)
  simp only [Kernel.shape, Option.map_eq_some_iff] at hshape
  obtain ⟨sp, hsp, heq⟩ := hshape
  obtain ⟨hroom, hstack⟩ := h s sp hsp
  injection heq with _ hpages hprogram _ htable
  refine ⟨by omega, fun tid pages htid => ?_⟩
  obtain ⟨start, hrange, hlow, hhigh⟩ := hstack tid pages (htable ▸ htid)
  exact ⟨start, hrange, by omega, by omega⟩

/-- One space is put into the table. -/
theorem setSpace (h : AllRanged k) {s : Nat} {sp : AddrSpace} (hsp : sp.Ranged)
    (hspaces : k'.spaces = Function.update k.spaces s (some sp)) : AllRanged k' := by
  intro t sp' ht
  rw [hspaces] at ht
  by_cases heq : t = s
  · rw [heq, Function.update_self] at ht
    cases ht
    exact hsp
  · rw [Function.update_of_ne heq] at ht
    exact h t sp' ht

theorem step {op : Op} (h : AllRanged k) (hsound : Sound k) (hstep : Step k op k') :
    AllRanged k' := by
  obtain ⟨hen, event, hnext⟩ := hstep
  have hspec := next_spec hen hnext
  by_cases haccess : op.address.isSome = true
  · exact h.sameLayout (sameLayout_access hsound haccess hspec)
  cases hspec with
  | loadHit | storeHit => exact absurd rfl haccess
  | miss hop => exact absurd (by rw [hop]; rfl) haccess
  | run hthread =>
    unfold schedulerRun
    split
    · have hsaved : AllRanged (saveState k) := h.sameLayout (tlbOnly_saveState k).sameLayout
      exact hsaved
    · exact h
  | newThread space hspace => exact h
  | create hcur hthread exe => exact h.setSpace (AddrSpace.ranged_new exe _) rfl
  | fork hrun hfresh junk =>
    exact h.setSpace ((h _ _ (running_some hrun).2.2.1).fork _ junk) rfl
  | @exit tid s sp pages hrun hpages =>
    have hrange := hsound.stackPages (running_some hrun).2.2.1 hpages
    have hexited : AllRanged (clearStack k s pages) := h.sameLayout (clearStack_sameLayout hrange)
    exact hexited
  | delete hrun junk =>
    rename_i s _
    obtain ⟨k₁, hlay, hdelete⟩ := deleteSpace_layout k s junk
    intro t sp' ht
    apply h.sameLayout hlay t sp'
    rw [hdelete] at ht
    by_cases heq : t = s
    · simp [Kernel.finish, heq] at ht
    · simpa [Kernel.finish, heq] using ht

end AllRanged

/-! ## The stacks in every run -/

/-- The thread that creates a space runs in it, with the only stack. -/
theorem create_points {k k' : Kernel} {exe : Executable} (hstep : Step k (.create exe) k') :
    ∃ tid s sp, k'.running = some (tid, s, sp) ∧ sp.PointsIntoStack tid := by
  obtain ⟨hen, event, hnext⟩ := hstep
  cases next_spec hen hnext with
  | miss hop => cases hop
  | @create tid hcur hthread =>
    have hpages : (AddrSpace.new exe tid).threadTable tid =
        some (List.range' (AddrSpace.new exe tid).numNonStackPages stackPageCount) := by
      simp [AddrSpace.new]
    refine ⟨tid, k.spaceCount, AddrSpace.new exe tid, ?_, ?_⟩
    · simp [Kernel.running, createSpace, Kernel.setSpace, hcur]
    · exact AddrSpace.pointsIntoStack_of_end hpages rfl

/-- `Fork` gives the running thread a stack at the end, and keeps the pages there were. -/
theorem fork_points {k k' : Kernel} {junk : Nat → Int} (hstep : Step k (.fork junk) k') :
    ∃ tid s sp sp', k.running = some (tid, s, sp) ∧ k'.running = some (tid, s, sp') ∧
      sp'.PointsIntoStack tid ∧ ∀ v < sp.numPages, sp'.pageTable v = sp.pageTable v := by
  obtain ⟨hen, event, hnext⟩ := hstep
  cases next_spec hen hnext with
  | miss hop => cases hop
  | @fork tid s sp hrun =>
    obtain ⟨hcur, hthread, -, -⟩ := running_some hrun
    have hpages : (sp.fork tid junk).threadTable tid =
        some (List.range' sp.numPages stackPageCount) := Function.update_self _ _ _
    refine ⟨tid, s, sp, sp.fork tid junk, hrun, ?_, ?_, fun v hv => if_pos hv⟩
    · simp [Kernel.running, Kernel.setSpace, hcur, hthread]
    · exact AddrSpace.pointsIntoStack_of_end hpages rfl

/-- `Exit` clears the pages of the running thread's stack and no others, and its assertion
holds. -/
theorem exit_clears {k : Kernel} (h : Stacks k) (hen : enabled k .exit = true) :
    ∃ tid s sp pages k₁, k.running = some (tid, s, sp) ∧ sp.threadTable tid = some pages ∧
      (exitLoop k s pages).2 = UserStackSize / PageSize ∧ exitStack k s pages = .ok k₁ ∧
      next k .exit = .ok (k₁.finish tid, .quiet) ∧
      (∀ v ∈ pages, (k₁.page s v).valid = false ∧ (k₁.page s v).physicalPage = -1) ∧
      ∀ t v, ¬ (t = s ∧ v ∈ pages) → k₁.page t v = k.page t v := by
  obtain ⟨⟨tid, s, sp⟩, hrun, hin⟩ := (Option.any_eq_true _ _).mp hen
  obtain ⟨pages, hpages⟩ := Option.isSome_iff_exists.mp hin
  have hs := (running_some hrun).2.2.1
  have hlength := h.length s sp tid pages hs hpages
  have hexit : exitStack k s pages = .ok (clearStack k s pages) :=
    exitStack_iff.mpr ⟨le_of_eq hlength.symm, rfl⟩
  refine ⟨tid, s, sp, pages, _, hrun, hpages, ?_, hexit, ?_,
    clearStack_page (h.stackPages hs hpages) hlength⟩
  · rw [exitLoop_eq, List.length_take, hlength]
    rfl
  · simp only [next, hrun, hpages, Option.getD_some, hexit]

/-- **Thread stacks are private**, in every reachable state: they are disjoint ranges of eight
pages behind the program, the stack pointer of a thread that gets one is in its last page,
`Fork` keeps the pages there were, and `Exit` clears eight pages, all of the thread's own
stack, so that its assertion holds. -/
theorem stacks_private {useFIFO : Bool} {k : Kernel}
    (h : Reachable Step (Kernel.init useFIFO) k) :
    (∀ s sp, k.spaces s = some sp →
      (∀ tid pages, sp.threadTable tid = some pages → ∃ start, pages = List.range' start 8 ∧
        sp.numNonStackPages ≤ start ∧ start + 8 ≤ sp.numPages) ∧
      ∀ tid tid' pages pages', tid ≠ tid' → sp.threadTable tid = some pages →
        sp.threadTable tid' = some pages' → pages.Disjoint pages') ∧
    (∀ exe k', Step k (.create exe) k' →
      ∃ tid s sp, k'.running = some (tid, s, sp) ∧ sp.PointsIntoStack tid) ∧
    (∀ junk k', Step k (.fork junk) k' →
      ∃ tid s sp sp', k.running = some (tid, s, sp) ∧ k'.running = some (tid, s, sp') ∧
        sp'.PointsIntoStack tid ∧ ∀ v < sp.numPages, sp'.pageTable v = sp.pageTable v) ∧
    (enabled k .exit = true →
      ∃ tid s sp pages k₁, k.running = some (tid, s, sp) ∧ sp.threadTable tid = some pages ∧
        (exitLoop k s pages).2 = UserStackSize / PageSize ∧ exitStack k s pages = .ok k₁ ∧
        next k .exit = .ok (k₁.finish tid, .quiet) ∧
        (∀ v ∈ pages, (k₁.page s v).valid = false ∧ (k₁.page s v).physicalPage = -1) ∧
        ∀ t v, ¬ (t = s ∧ v ∈ pages) → k₁.page t v = k.page t v) := by
  obtain ⟨hstacks, hranged⟩ : Stacks k ∧ AllRanged k := by
    refine h.invariant (I := fun k => Stacks k ∧ AllRanged k) ⟨Stacks.init useFIFO, nofun⟩ ?_
    rintro k op k' ⟨hstacks, hranged⟩ hstep
    exact ⟨hstacks.step hstep, hranged.step hstacks.sound hstep⟩
  refine ⟨fun s sp hs => ⟨(hranged s sp hs).stack, ?_⟩, fun _ _ => create_points,
    fun _ _ => fork_points, exit_clears hstacks⟩
  intro tid tid' pages pages' hne hpages hpages' v hv hv'
  exact hne (hstacks.apart s sp tid tid' pages pages' v hs hpages hpages' hv hv')

/-- Thread 0 has a space with two program pages, and thread 1 gets a stack in it. -/
def twoStacks : List Op :=
  [.create (.blank 200), .newThread true, .run 1, .fork fun _ => 0]

/-- Thread 1 exits: its eight pages are cleared. -/
theorem stacks_private_twoStacks : ∃ k sp k₁, k.spaces 0 = some sp ∧
    sp.threadTable 0 = some (List.range' 2 8) ∧ sp.threadTable 1 = some (List.range' 10 8) ∧
    (List.range' 2 8).Disjoint (List.range' 10 8) ∧ exitStack k 0 (List.range' 10 8) = .ok k₁ ∧
    (∀ v ∈ List.range' 10 8, (k₁.page 0 v).valid = false) ∧ k₁.page 0 2 = k.page 0 2 := by
  have hrun : (Lib.execute step? (Kernel.init true) twoStacks).any (fun k =>
      (k.running.any fun e => decide (e.1 = 1 ∧ e.2.1 = 0 ∧
        e.2.2.threadTable 0 = some (List.range' 2 8) ∧
        e.2.2.threadTable 1 = some (List.range' 10 8))) &&
      enabled k .exit) = true := by
    decide +kernel
  obtain ⟨k, hk, hdec⟩ := (Option.any_eq_true _ _).mp hrun
  obtain ⟨hspace, hen⟩ := Bool.and_eq_true_iff.mp hdec
  obtain ⟨⟨tid, s, sp⟩, hrunning, htables⟩ := (Option.any_eq_true _ _).mp hspace
  obtain ⟨rfl, rfl, hzero, hone⟩ := of_decide_eq_true htables
  have hs := (running_some hrunning).2.2.1
  have hreach : Reachable Step (Kernel.init true) k :=
    ⟨_, Lib.path_of_execute (fun _ _ _ => step_of_step?) hk⟩
  obtain ⟨hstacks, -, -, hexit⟩ := stacks_private hreach
  obtain ⟨tid', s', sp', pages, k₁, hrun', hpages, -, hok, -, hcleared, hother⟩ := hexit hen
  cases hrunning.symm.trans hrun'
  cases hone.symm.trans hpages
  exact ⟨k, sp, k₁, hs, hzero, hone, (hstacks 0 sp hs).2 0 1 _ _ (by decide) hzero hone, hok,
    fun v hv => (hcleared v hv).1, hother 0 2 fun h => absurd h.2 (by decide)⟩

end Nachos.VM

import Nachos.VM.Frames

/-!
# The stacks of the threads of a space

`threadTable` gives each thread of a space the pages of its stack. The pages of two threads
are different ones (`Stacks.apart`), so `AddrSpace::Exit` gives back the stack of its own
thread and leaves every other page (`clearStack_page`).
-/

namespace Nachos.VM

/-- The threads have live spaces, and stacks of their own in them. -/
structure Stacks (k : Kernel) : Prop where
  sound : Sound k
  threads : ∀ tid space, k.threads tid = some space → tid < k.threadIDCount
  spaces : ∀ tid s, k.threads tid = some (some s) → ∃ sp, k.spaces s = some sp
  known : ∀ s sp tid pages, k.spaces s = some sp → sp.threadTable tid = some pages →
    tid < k.threadIDCount
  length : ∀ s sp tid pages, k.spaces s = some sp → sp.threadTable tid = some pages →
    pages.length = stackPageCount
  apart : ∀ s sp tid tid' pages pages' v, k.spaces s = some sp →
    sp.threadTable tid = some pages → sp.threadTable tid' = some pages' →
    v ∈ pages → v ∈ pages' → tid = tid'

/-- The spaces of a state with the same layout have the same stacks. -/
theorem SameLayout.threadTable {k k' : Kernel} (h : SameLayout k k') {s : Nat} {sp' : AddrSpace}
    (hs : k'.spaces s = some sp') :
    ∃ sp, k.spaces s = some sp ∧ sp.threadTable = sp'.threadTable := by
  have hshape := (congrFun h.shape s).symm.trans (shape_some hs)
  simp only [Kernel.shape, Option.map_eq_some_iff] at hshape
  obtain ⟨sp, hsp, heq⟩ := hshape
  injection heq with _ _ _ _ htab
  exact ⟨sp, hsp, htab⟩

theorem SameLayout.spaces_some {k k' : Kernel} (h : SameLayout k k') {s : Nat} {sp : AddrSpace}
    (hs : k.spaces s = some sp) : ∃ sp', k'.spaces s = some sp' ∧ sp'.threadTable = sp.threadTable := by
  have hshape := (congrFun h.shape s).trans (shape_some hs)
  simp only [Kernel.shape, Option.map_eq_some_iff] at hshape
  obtain ⟨sp', hsp, heq⟩ := hshape
  injection heq with _ _ _ _ htab
  exact ⟨sp', hsp, htab⟩

namespace Stacks

variable {k k' : Kernel}

theorem init (useFIFO : Bool) : Stacks (Kernel.init useFIFO) where
  sound := Sound.init useFIFO
  threads tid space h := by
    simp only [Kernel.init, Function.update_apply] at h ⊢
    split at h
    · omega
    · cases h
  spaces tid s h := by
    simp only [Kernel.init, Function.update_apply] at h
    split at h <;> cases h
  known := nofun
  length := nofun
  apart := nofun

/-- No space gets new stacks. -/
theorem keep (h : Stacks k) (hsound : Sound k')
    (hold : ∀ s sp', k'.spaces s = some sp' →
      ∃ sp, k.spaces s = some sp ∧ sp.threadTable = sp'.threadTable)
    (hthreads : ∀ tid space, k'.threads tid = some space → tid < k'.threadIDCount)
    (hlive : ∀ tid s, k'.threads tid = some (some s) → ∃ sp, k'.spaces s = some sp)
    (hcount : k.threadIDCount ≤ k'.threadIDCount) : Stacks k' where
  sound := hsound
  threads := hthreads
  spaces := hlive
  known s sp' tid pages hs hpages := by
    obtain ⟨sp, hsp, htab⟩ := hold s sp' hs
    have hlt := h.known s sp tid pages hsp (htab ▸ hpages)
    omega
  length s sp' tid pages hs hpages := by
    obtain ⟨sp, hsp, htab⟩ := hold s sp' hs
    exact h.length s sp tid pages hsp (htab ▸ hpages)
  apart s sp' tid tid' pages pages' v hs hpages hpages' := by
    obtain ⟨sp, hsp, htab⟩ := hold s sp' hs
    exact h.apart s sp tid tid' pages pages' v hsp (htab ▸ hpages) (htab ▸ hpages')

theorem sameLayout (h : Stacks k) (hsound : Sound k') (hl : SameLayout k k') : Stacks k' := by
  refine h.keep hsound (fun s sp' hs => hl.threadTable hs) (fun tid space ht => ?_)
    (fun tid s ht => ?_) (le_of_eq hl.threadIDCount.symm)
  · rw [hl.threads] at ht
    rw [hl.threadIDCount]
    exact h.threads tid space ht
  · rw [hl.threads] at ht
    obtain ⟨sp, hsp⟩ := h.spaces tid s ht
    obtain ⟨sp', hsp', -⟩ := hl.spaces_some hsp
    exact ⟨sp', hsp'⟩

/-- `Scheduler::Run`. -/
theorem run (h : Stacks k) (tid : Nat) : Stacks (schedulerRun k tid) := by
  unfold schedulerRun
  have hsame : Stacks (if k.currentSpace.isSome then saveState k else k) := by
    split
    · have ht := tlbOnly_saveState k
      exact h.sameLayout (h.sound.tlbOnly ht) ht.sameLayout
    · exact h
  exact ⟨hsame.sound.threads rfl, hsame.threads, hsame.spaces, hsame.known, hsame.length,
    hsame.apart⟩

/-- `new Thread`, in no space or in a live one. -/
theorem newThread (h : Stacks k) {space : Option Nat}
    (hspace : ∀ s, space = some s → ∃ sp, k.spaces s = some sp) :
    Stacks (VM.newThread k space) := by
  refine h.keep (h.sound.threads rfl) (fun s sp hs => ⟨sp, hs, rfl⟩) (fun tid sp ht => ?_)
    (fun tid s ht => ?_) (Nat.le_succ _)
  · show tid < k.threadIDCount + 1
    by_cases heq : tid = k.threadIDCount
    · omega
    · have hlt := h.threads tid sp (by simpa [VM.newThread, heq] using ht)
      omega
  · by_cases heq : tid = k.threadIDCount
    · apply hspace s
      simpa [VM.newThread, heq] using ht
    · exact h.spaces tid s (by simpa [VM.newThread, heq] using ht)

/-- `new AddrSpace`. -/
theorem create (h : Stacks k) {tid : Nat} (ht : tid < k.threadIDCount) (exe : Executable) :
    Stacks (createSpace k tid exe) := by
  have hnew : (createSpace k tid exe).spaces k.spaceCount = some (AddrSpace.new exe tid) :=
    Function.update_self _ _ _
  have hold : ∀ s, s ≠ k.spaceCount → (createSpace k tid exe).spaces s = k.spaces s :=
    fun s hs => Function.update_of_ne hs _ _
  -- the new space has one stack, that of its thread
  have honly : ∀ u pages, (AddrSpace.new exe tid).threadTable u = some pages →
      u = tid ∧ pages.length = stackPageCount := by
    intro u pages hpages
    simp only [AddrSpace.new, Function.update_apply] at hpages
    split at hpages
    · rename_i heq
      cases hpages
      exact ⟨heq, List.length_range'⟩
    · cases hpages
  refine ⟨h.sound.created tid exe, fun u sp hu => ?_, fun u s hu => ?_,
    fun s sp u pages hs hpages => ?_, fun s sp u pages hs hpages => ?_,
    fun s sp u u' pages pages' v hs hpages hpages' hv hv' => ?_⟩
  · by_cases heq : u = tid
    · exact heq ▸ ht
    · exact h.threads u sp (by simpa [createSpace, heq] using hu)
  · by_cases heq : s = k.spaceCount
    · exact ⟨_, heq ▸ hnew⟩
    · rw [hold s heq]
      by_cases htid : u = tid
      · subst htid
        have hsome : some (some k.spaceCount) = some (some s) := by
          simpa [createSpace] using hu
        cases hsome
        exact absurd rfl heq
      · exact h.spaces u s (by simpa [createSpace, htid] using hu)
  · by_cases heq : s = k.spaceCount
    · rw [heq, hnew] at hs
      cases hs
      rw [(honly u pages hpages).1]
      exact ht
    · exact h.known s sp u pages ((hold s heq).symm.trans hs) hpages
  · by_cases heq : s = k.spaceCount
    · rw [heq, hnew] at hs
      cases hs
      exact (honly u pages hpages).2
    · exact h.length s sp u pages ((hold s heq).symm.trans hs) hpages
  · by_cases heq : s = k.spaceCount
    · rw [heq, hnew] at hs
      cases hs
      exact (honly u pages hpages).1.trans (honly u' pages' hpages').1.symm
    · exact h.apart s sp u u' pages pages' v ((hold s heq).symm.trans hs) hpages hpages' hv hv'

/-- `AddrSpace::Fork`: the new stack is behind the old pages. -/
theorem fork (h : Stacks k) {tid s : Nat} {sp : AddrSpace} (ht : tid < k.threadIDCount)
    (hs : k.spaces s = some sp) (junk : Nat → Int) :
    Stacks (k.setSpace s (sp.fork tid junk)) := by
  have hnew : (k.setSpace s (sp.fork tid junk)).spaces s = some (sp.fork tid junk) :=
    Function.update_self _ _ _
  have hold : ∀ s', s' ≠ s → (k.setSpace s (sp.fork tid junk)).spaces s' = k.spaces s' :=
    fun s' hs' => Function.update_of_ne hs' _ _
  have hcases : ∀ u pages, (sp.fork tid junk).threadTable u = some pages →
      (u = tid ∧ pages = List.range' sp.numPages stackPageCount) ∨
        (u ≠ tid ∧ sp.threadTable u = some pages) := by
    intro u pages hpages
    simp only [AddrSpace.fork, Function.update_apply] at hpages
    split at hpages
    · rename_i heq
      cases hpages
      exact .inl ⟨heq, rfl⟩
    · rename_i hne
      exact .inr ⟨hne, hpages⟩
  refine ⟨h.sound.forked hs tid junk, h.threads, fun u s' hu => ?_,
    fun s' sp' u pages hs' hpages => ?_, fun s' sp' u pages hs' hpages => ?_,
    fun s' sp' u u' pages pages' v hs' hpages hpages' hv hv' => ?_⟩
  · by_cases heq : s' = s
    · rw [heq]
      exact ⟨_, hnew⟩
    · rw [hold s' heq]
      exact h.spaces u s' hu
  · by_cases heq : s' = s
    · rw [heq, hnew] at hs'
      cases hs'
      rcases hcases u pages hpages with ⟨rfl, -⟩ | ⟨-, hwas⟩
      · exact ht
      · exact h.known s sp u pages hs hwas
    · exact h.known s' sp' u pages ((hold s' heq).symm.trans hs') hpages
  · by_cases heq : s' = s
    · rw [heq, hnew] at hs'
      cases hs'
      rcases hcases u pages hpages with ⟨-, rfl⟩ | ⟨-, hwas⟩
      · exact List.length_range'
      · exact h.length s sp u pages hs hwas
    · exact h.length s' sp' u pages ((hold s' heq).symm.trans hs') hpages
  · by_cases heq : s' = s
    swap
    · exact h.apart s' sp' u u' pages pages' v ((hold s' heq).symm.trans hs') hpages hpages' hv hv'
    rw [heq, hnew] at hs'
    cases hs'
    have hbelow := h.sound.spaces.stack s sp
    rcases hcases u pages hpages with ⟨rfl, rfl⟩ | ⟨-, hwas⟩
    · rcases hcases u' pages' hpages' with ⟨rfl, -⟩ | ⟨-, hwas'⟩
      · rfl
      · have hlt := hbelow u' pages' hs hwas' v hv'
        have hge := (List.mem_range'_1.mp hv).1
        omega
    · rcases hcases u' pages' hpages' with ⟨rfl, rfl⟩ | ⟨-, hwas'⟩
      · have hlt := hbelow u pages hs hwas v hv
        have hge := (List.mem_range'_1.mp hv').1
        omega
      · exact h.apart s sp u u' pages pages' v hs hwas hwas' hv hv'

/-- `Thread::Finish`. -/
theorem finish (h : Stacks k) (tid : Nat) : Stacks (k.finish tid) := by
  refine h.keep (h.sound.threads rfl) (fun s sp hs => ⟨sp, hs, rfl⟩) (fun u sp hu => ?_)
    (fun u s hu => ?_) (le_refl _)
  · by_cases heq : u = tid
    · simp [Kernel.finish, heq] at hu
    · exact h.threads u sp (by simpa [Kernel.finish, heq] using hu)
  · by_cases heq : u = tid
    · simp [Kernel.finish, heq] at hu
    · exact h.spaces u s (by simpa [Kernel.finish, heq] using hu)

/-- The pages of the exiting thread exist. -/
theorem stackPages (h : Stacks k) {s tid : Nat} {sp : AddrSpace} {pages : List Nat}
    (hs : k.spaces s = some sp) (hpages : sp.threadTable tid = some pages) :
    ∀ v ∈ pages, k.HasPage s v :=
  h.sound.stackPages hs hpages

end Stacks

/-! ## `Exit` and the destructor -/

/-- A turn of the loop of `AddrSpace::Exit` clears the entry of its page. -/
theorem exitPage_physicalPage {k : Kernel} {s v : Nat} (hp : k.HasPage s v) :
    ((exitPage s k v).page s v).physicalPage = -1 := by
  have hcleared : ∀ k₁ : Kernel, k₁.spaces = k.spaces →
      ((k₁.modPage s v ({ · with valid := false, physicalPage := -1 })).page s v).physicalPage =
        -1 := by
    intro k₁ hk₁
    have hp₁ : k₁.HasPage s v := by simpa [Kernel.HasPage, Kernel.numPages, hk₁] using hp
    rw [modPage_page _ _ _ _ _ _ hp₁, if_pos ⟨rfl, rfl⟩]
  unfold exitPage
  apply hcleared
  split
  · split <;> rfl
  · rfl

/-- **`AddrSpace::Exit` gives back the pages of one stack**: they are not valid any more and have
no frame, and all other pages are as they were. -/
theorem clearStack_page {k : Kernel} {s : Nat} {pages : List Nat}
    (hpages : ∀ v ∈ pages, k.HasPage s v) (hlength : pages.length = stackPageCount) :
    (∀ v ∈ pages, ((clearStack k s pages).page s v).valid = false ∧
      ((clearStack k s pages).page s v).physicalPage = -1) ∧
    ∀ t v, ¬ (t = s ∧ v ∈ pages) → (clearStack k s pages).page t v = k.page t v := by
  have hall : pages.take 8 = pages := List.take_of_length_le (by rw [hlength]; decide)
  have hpage : (clearStack k s pages).page = (pages.foldl (exitPage s) k).page := by
    unfold clearStack
    rw [hall, (tlbOnly_saveState _).page]
  rw [hpage]
  clear hall hlength hpage
  induction pages generalizing k with
  | nil => exact ⟨nofun, fun _ _ _ => rfl⟩
  | cons w rest ih =>
    have hw := hpages w List.mem_cons_self
    have hfree := exitPage_spec hw
    have hrest : ∀ v ∈ rest, (exitPage s k w).HasPage s v := fun v hv =>
      (hfree.sameLayout.hasPage s v).mpr (hpages v (List.mem_cons_of_mem _ hv))
    obtain ⟨hcleared, hother⟩ := ih hrest
    rw [List.foldl_cons]
    refine ⟨fun v hv => ?_, fun t v hne => ?_⟩
    · by_cases hin : v ∈ rest
      · exact hcleared v hin
      · obtain rfl : v = w := (List.mem_cons.mp hv).resolve_right hin
        rw [hother s v fun heq => hin heq.2]
        exact ⟨hfree.invalid, exitPage_physicalPage hw⟩
    · rw [hother t v fun heq => hne ⟨heq.1, List.mem_cons_of_mem _ heq.2⟩]
      apply hfree.other
      rintro ⟨rfl, rfl⟩
      exact hne ⟨rfl, List.mem_cons_self⟩

/-- The destructor leaves the other spaces. -/
theorem deleteSpace_layout (k : Kernel) (s : Nat) (junk : Nat → Int) :
    ∃ k₁, SameLayout k k₁ ∧
      deleteSpace k s junk = { k₁ with spaces := Function.update k₁.spaces s none } := by
  obtain ⟨hlay, -⟩ := deleteLoop_rule (I := fun _ => True) (k := k) s junk
    (fun _ _ _ _ _ => trivial) trivial le_rfl
  exact ⟨_, hlay.trans (tlbOnly_saveState _).sameLayout, rfl⟩

namespace Stacks

variable {k : Kernel}

/-- A thread leaves, and its space stays. -/
theorem exit (h : Stacks k) {s tid : Nat} {sp : AddrSpace} {pages : List Nat}
    (hs : k.spaces s = some sp) (hpages : sp.threadTable tid = some pages) :
    Stacks ((clearStack k s pages).finish tid) := by
  have hrange := h.stackPages hs hpages
  exact (h.sameLayout (h.sound.exited hrange) (clearStack_sameLayout hrange)).finish tid

/-- The last thread of a space leaves, and the space is deleted. -/
theorem delete (h : Stacks k) {s tid : Nat} (hlast : ∀ u, k.threads u = some (some s) → u = tid)
    (junk : Nat → Int) : Stacks ((deleteSpace k s junk).finish tid) := by
  obtain ⟨k₁, hlay, hdelete⟩ := deleteSpace_layout k s junk
  have hsound := h.sound.deleted s junk
  rw [hdelete] at hsound ⊢
  refine h.keep (hsound.threads rfl) (fun s' sp hs' => ?_) (fun u sp hu => ?_) (fun u s' hu => ?_)
    (le_of_eq hlay.threadIDCount.symm)
  · apply hlay.threadTable
    by_cases heq : s' = s
    · simp [Kernel.finish, heq] at hs'
    · simpa [Kernel.finish, heq] using hs'
  · show u < k₁.threadIDCount
    rw [hlay.threadIDCount]
    by_cases heq : u = tid
    · simp [Kernel.finish, heq] at hu
    · apply h.threads u sp
      rw [← hlay.threads]
      simpa [Kernel.finish, heq] using hu
  · by_cases heq : u = tid
    · simp [Kernel.finish, heq] at hu
    · have hwas : k.threads u = some (some s') := by
        rw [← hlay.threads]
        simpa [Kernel.finish, heq] using hu
      have hne : s' ≠ s := by
        rintro rfl
        exact heq (hlast u hwas)
      obtain ⟨sp, hsp⟩ := h.spaces u s' hwas
      obtain ⟨sp', hsp', -⟩ := hlay.spaces_some hsp
      refine ⟨sp', ?_⟩
      show Function.update k₁.spaces s none s' = some sp'
      rw [Function.update_of_ne hne]
      exact hsp'

end Stacks

/-- A byte access leaves threads and spaces. -/
theorem sameLayout_access {k k' : Kernel} {op : Op} {event : Event} (h : Sound k)
    (haccess : op.address.isSome = true) (hstep : StepSpec k op k' event) : SameLayout k k' := by
  cases hstep with
  | loadHit hrun htr => exact (tlbOnly_translate htr).sameLayout
  | storeHit hrun htr =>
    have hl := (tlbOnly_translate htr).sameLayout
    exact ⟨hl.shape, hl.virtualPage, hl.spaceCount, hl.threads, hl.threadIDCount, hl.currentThread⟩
  | miss hop hrun hmiss hfault => exact handleTLBMiss_sameLayout h.spaces h.frames hfault
  | run | newThread | create | fork | exit | delete => cases haccess

namespace Stacks

variable {k k' : Kernel}

/-- A space is deleted by its last thread. -/
theorem last_thread (h : Stacks k) {tid s : Nat} {sp : AddrSpace} {junk : Nat → Int}
    (hrun : k.running = some (tid, s, sp)) (hen : enabled k (.delete junk) = true) {u : Nat}
    (hu : k.threads u = some (some s)) : u = tid := by
  obtain ⟨⟨tid', s', sp'⟩, hrun', hall⟩ := (Option.any_eq_true _ _).mp hen
  cases hrun.symm.trans hrun'
  have hlt := h.threads u _ hu
  have hother := List.all_eq_true.mp hall u (List.mem_range.mpr hlt)
  rcases Bool.or_eq_true_iff.mp hother with heq | hne
  · exact of_decide_eq_true heq
  · exact absurd hu (of_decide_eq_true hne)

theorem step {op : Op} (h : Stacks k) (hstep : Step k op k') : Stacks k' := by
  obtain ⟨hen, event, hnext⟩ := hstep
  have hspec := next_spec hen hnext
  have hsound := h.sound.stepSpec hspec
  by_cases haccess : op.address.isSome = true
  · exact h.sameLayout hsound (sameLayout_access h.sound haccess hspec)
  cases hspec with
  | loadHit | storeHit => exact absurd rfl haccess
  | miss hop => exact absurd (by rw [hop]; rfl) haccess
  | run hthread => exact h.run _
  | newThread space hspace => exact h.newThread fun s hs => (hspace s hs).2
  | create hcur hthread exe => exact h.create (h.threads _ _ hthread) exe
  | fork hrun hfresh junk =>
    obtain ⟨-, hthread, hs, -⟩ := running_some hrun
    exact h.fork (h.threads _ _ hthread) hs junk
  | exit hrun hpages => exact h.exit (running_some hrun).2.2.1 hpages
  | delete hrun junk => exact h.delete (fun u hu => h.last_thread hrun hen hu) junk

end Stacks

end Nachos.VM

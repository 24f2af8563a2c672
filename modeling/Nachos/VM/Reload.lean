import Nachos.VM.Fresh

/-!
# Where pages are reloaded from

`location` and `byteOffset` say where a page that is not in memory is. The constructor and
`Fork` set them, an eviction changes them, and `handleIPTmiss` follows them.

## The defect

`handleMemoryFull` takes a clean page for one of the executable ("if its going to exec it
was always in exec"). A stack page starts out nowhere and gets a frame as it is; when it is
evicted before anything is written to it, it is marked `EXEC` with the `byteOffset` it was
created with, `-1` or whatever `Fork` found there, and the next fault reads the file at that
position. Without such an eviction (`KeepsStackPages`) every page is reloaded from where it
was.

The slots that `writePageToSwap` wrote for each page are recorded beside the machine, like
the executables.
-/

namespace Nachos.VM

/-! ## What a fault reads and writes -/

/-- A read of `handleIPTmiss` for the page `vpn` of the space `s`. -/
inductive Reload where
  | exec (s vpn : Nat) (position : Int)
  | swap (s vpn : Nat) (position : Int)
  deriving DecidableEq, Repr

/-- The page that `handleIPTmiss` is called for in a step. -/
def faultingPage (k : Kernel) (op : Op) : Option (Nat × Nat) :=
  match op.address, k.running with
  | some addr, some (_, s, _) =>
    if tlbEntryOfPage k (addr / PageSize) = none ∧ lookupIPT k s (addr / PageSize) = none then
      some (s, addr / PageSize)
    else none
  | _, _ => none

/-- The read of the step, from the place that the page's entry gives. A page number past
the end of the page table has no entry. -/
def reload (k : Kernel) (op : Op) : Option Reload :=
  (faultingPage k op).bind fun (s, vpn) =>
    match findFrame k op.random with
    | .error _ => none
    | .ok (k, _) =>
      if k.HasPage s vpn then
        match (k.page s vpn).location with
        | .EXEC => some (.exec s vpn (k.page s vpn).byteOffset)
        | .SWAP => some (.swap s vpn (k.page s vpn).byteOffset)
        | .VOID => none
        | .MAIN => none
      else none

/-- The frame that `handleIPTmiss` has evicted, if it calls `handleMemoryFull`. -/
def victim (k : Kernel) (r : Nat) : Option Nat :=
  match k.pageTableBitMap.find with
  | (some _, _) => none
  | (none, _) => (chooseVictim k r).toOption

/-- The page that the step writes to swap, with the offset `writePageToSwap` returns. -/
def swappedOut (k : Kernel) (op : Op) : Option (Nat × Nat × Int) :=
  (faultingPage k op).bind fun _ => (victim k op.random).bind fun ppn =>
    let k := dropFrameFromTLB k ppn
    if (k.IPT ppn).dirty then
      match writePageToSwap k ppn with
      | .ok (_, byteOffset) => some ((k.IPT ppn).PID, (k.IPT ppn).virtualPage, byteOffset)
      | .error _ => none
    else none

/-! ## The record -/

/-- The offset each page was last written to, and the executable of each space. -/
structure Places where
  written : Nat → Nat → Option Int
  exe : Nat → Executable

/-- A write to swap is recorded. -/
def Places.recordWritten (g : Places) (k : Kernel) (op : Op) : Nat → Nat → Option Int :=
  match swappedOut k op with
  | some (s, vpn, byteOffset) =>
    fun t w => if t = s ∧ w = vpn then some byteOffset else g.written t w
  | none => g.written

/-- A step of the machine beside the record. -/
def PlaceStep (c : Kernel × Places) (op : Op) (c' : Kernel × Places) : Prop :=
  Step c.1 op c'.1 ∧ c'.2 = ⟨c.2.recordWritten c.1 op, recordExe c.1 c.2.exe op⟩

/-- The read is of a page of the program at its place in the file, or of the slot that the
page was last written to. -/
def RightPlace (c : Kernel × Places) : Reload → Prop
  | .exec s vpn position => c.1.InProgram s vpn ∧
      position = (((c.2.exe s).code.inFileAddr + vpn * PageSize : Nat) : Int)
  | .swap s vpn position => c.2.written s vpn = some position

/-- `numNonStackPages` of a live space. -/
def Kernel.numNonStackPages (k : Kernel) (s : Nat) : Nat :=
  match k.spaces s with
  | some sp => sp.numNonStackPages
  | none => 0

/-- The step evicts no stack page that was not written to since it was loaded. -/
def KeepsStackPages (c : Kernel × Places) (op : Op) : Prop :=
  ((faultingPage c.1 op).bind fun _ => victim c.1 op.random).all (fun ppn =>
    ((dropFrameFromTLB c.1 ppn).IPT ppn).dirty ||
    decide ((c.1.IPT ppn).virtualPage < c.1.numNonStackPages (c.1.IPT ppn).PID)) = true

instance (c : Kernel × Places) (op : Op) : Decidable (KeepsStackPages c op) :=
  inferInstanceAs (Decidable (_ = _))

theorem inProgram_of_lt {k : Kernel} {s v : Nat} (h : v < k.numNonStackPages s) :
    k.InProgram s v := by
  unfold Kernel.numNonStackPages at h
  cases hs : k.spaces s with
  | none => simp [hs] at h
  | some sp =>
    rw [hs] at h
    exact ⟨_, shape_some hs, h⟩

/-! ## The invariant -/

/-- Where the pages that are not in memory are said to be. -/
structure PlaceInv (k : Kernel) (g : Places) : Prop where
  sound : Sound k
  programs : Programs k g.exe
  stack : ∀ s v, k.HasPage s v → ¬ k.InProgram s v → (k.page s v).location ≠ .EXEC
  swap : ∀ s v, k.HasPage s v → (k.page s v).location = .SWAP →
    g.written s v = some (k.page s v).byteOffset

/-- The page's entry says the same about where its contents are. -/
def SamePlace (p q : PageTableEntry) : Prop := q.location = p.location ∧ q.byteOffset = p.byteOffset

theorem modPage_samePlace (k : Kernel) (s v : Nat) {f : PageTableEntry → PageTableEntry}
    (hf : ∀ e, SamePlace e (f e)) (t w : Nat) :
    SamePlace (k.page t w) ((k.modPage s v f).page t w) := by
  by_cases ht : t = s
  · subst ht
    cases hsp : k.spaces t with
    | none =>
      simp [SamePlace, Kernel.page, Kernel.modPage, hsp]
    | some sp =>
      simp only [Kernel.page, Kernel.modPage, AddrSpace.modPage, hsp, Function.update_self,
        Option.map_some, Function.update_apply]
      split
      · rename_i heq
        rw [heq]
        exact hf _
      · exact ⟨rfl, rfl⟩
  · simp [SamePlace, Kernel.page, Kernel.modPage, Function.update_of_ne ht]

/-- Giving a stack page back leaves its place as it was. -/
theorem exitPage_samePlace (k : Kernel) (s v t w : Nat) :
    SamePlace (k.page t w) ((exitPage s k v).page t w) := by
  have hsame : ∀ k₁ : Kernel, k₁.spaces = k.spaces →
      SamePlace (k.page t w)
        ((k₁.modPage s v ({ · with valid := false, physicalPage := -1 })).page t w) := by
    intro k₁ hk₁
    have hpage : k₁.page t w = k.page t w := by simp [Kernel.page, hk₁]
    have h := modPage_samePlace k₁ s v
      (f := ({ · with valid := false, physicalPage := -1 })) (fun _ => ⟨rfl, rfl⟩) t w
    rw [hpage] at h
    exact h
  unfold exitPage
  apply hsame
  split
  · split <;> rfl
  · rfl

theorem clearStack_samePlace (k : Kernel) (s : Nat) (pages : List Nat) (t w : Nat) :
    SamePlace (k.page t w) ((clearStack k s pages).page t w) := by
  rw [clearStack, (tlbOnly_saveState _).page]
  refine List.foldlRecOn (motive := fun k₁ => SamePlace (k.page t w) (k₁.page t w))
    (pages.take 8) (exitPage s) ⟨rfl, rfl⟩ ?_
  intro k₁ hk₁ v _
  obtain ⟨hloc, hoff⟩ := exitPage_samePlace k₁ s v t w
  exact ⟨hloc.trans hk₁.1, hoff.trans hk₁.2⟩

/-- `findFrame` evicts the victim, if there is one. -/
theorem findFrame_victim {k k₁ : Kernel} {r ppn : Nat} (hf : FrameInv none k)
    (h : findFrame k r = .ok (k₁, ppn)) :
    (victim k r = none ∧ k₁.page = k.page) ∨
    (victim k r = some ppn ∧ Evicted (dropFrameFromTLB k ppn) ppn k₁) := by
  unfold findFrame at h
  unfold victim
  cases hfind : k.pageTableBitMap.find with
  | mk o m =>
    cases o with
    | some p =>
      simp only [hfind] at h
      cases h
      exact .inl ⟨rfl, rfl⟩
    | none =>
      simp only [hfind] at h
      obtain ⟨hchoose, hlt, hv, he⟩ := handleMemoryFull_spec h
      refine .inr ⟨?_, he (hf.entry ppn hlt hv).1⟩
      rw [hchoose]
      rfl

/-- The offset that a dirty victim is written to. -/
theorem Evicted.written {k k' : Kernel} {ppn : Nat} (he : Evicted k ppn k')
    (hv : (k.IPT ppn).valid = true) (hd : (k.IPT ppn).dirty = true) :
    ∃ k₂, writePageToSwap k ppn =
      .ok (k₂, (k'.page (k.IPT ppn).PID (k.IPT ppn).virtualPage).byteOffset) := by
  cases he.wentTo with
  | exec hclean =>
    rw [hd] at hclean
    cases hclean
  | swap slot m _ hfind _ _ hpage =>
    rw [hpage]
    unfold writePageToSwap
    simp only [hv, hd, Bool.and_self, if_true, hfind]
    exact ⟨_, rfl⟩

namespace PlaceInv

variable {k k' : Kernel} {g : Places}

theorem init (useFIFO : Bool) (g : Places) : PlaceInv (Kernel.init useFIFO) g where
  sound := Sound.init useFIFO
  programs := Programs.init useFIFO g.exe
  stack s v hp := by simp [Kernel.HasPage, Kernel.numPages, Kernel.init] at hp
  swap s v hp := by simp [Kernel.HasPage, Kernel.numPages, Kernel.init] at hp

/-- The places of the pages are the same, and no page became one of the program. -/
theorem same (h : PlaceInv k g) (hs : Sound k') (hprog : Programs k' g.exe)
    (hp : ∀ s v, k'.HasPage s v → k.HasPage s v ∧ SamePlace (k.page s v) (k'.page s v) ∧
      (k.InProgram s v → k'.InProgram s v)) : PlaceInv k' g where
  sound := hs
  programs := hprog
  stack s v hpage hnot := by
    obtain ⟨hold, ⟨hloc, -⟩, hin⟩ := hp s v hpage
    rw [hloc]
    exact h.stack s v hold fun hprog => hnot (hin hprog)
  swap s v hpage hswap := by
    obtain ⟨hold, ⟨hloc, hoff⟩, -⟩ := hp s v hpage
    rw [hoff]
    exact h.swap s v hold (hloc.symm.trans hswap)

/-- Only the TLB, memory and the threads moved. -/
theorem samePages (h : PlaceInv k g) (hs : Sound k') (hprog : Programs k' g.exe)
    (hshape : k'.shape = k.shape) (hpage : k'.page = k.page) : PlaceInv k' g := by
  refine h.same hs hprog fun s v hp => ?_
  have hold : k.HasPage s v := by
    unfold Kernel.HasPage at hp ⊢
    rw [numPages_of_shape hshape] at hp
    exact hp
  rw [hpage]
  exact ⟨hold, ⟨rfl, rfl⟩, (Programs.inProgram_of_shape hshape s v).mpr⟩

/-- **A TLB miss** that evicts no clean stack page. -/
theorem missed (h : PlaceInv k g) {op : Op} {tid s addr : Nat} {sp : AddrSpace}
    (hop : op.address = some addr) (hrun : k.running = some (tid, s, sp))
    (hmiss : tlbEntryOfPage k (addr / PageSize) = none) (hkeeps : KeepsStackPages (k, g) op)
    (hm : handleTLBMiss k s addr op.random = .ok k') :
    PlaceInv k' ⟨g.recordWritten k op, g.exe⟩ := by
  have hs := h.sound.missed hm
  have hprog := h.programs.missed h.sound hm
  rcases handleTLBMiss_cases h.sound.spaces h.sound.frames hm with
    ⟨ppn, hl, rfl⟩ | ⟨k₁, ppn, sp', k₂, k₃, hl, hin, rfl⟩
  · -- the page was in memory
    have hnone : faultingPage k op = none := by simp [faultingPage, hop, hrun, hl]
    have hsame : g.recordWritten k op = g.written := by
      simp [Places.recordWritten, swappedOut, hnone]
    rw [hsame]
    have ht := tlbOnly_populate k ppn
    exact h.samePages hs hprog ht.shape ht.page
  · have hfault : faultingPage k op = some (s, addr / PageSize) := by
      simp [faultingPage, hop, hrun, hmiss, hl]
    have ht := tlbOnly_populate k₃ ppn
    have hlay : SameLayout k k₃ := (hin.foundLayout.trans (loadPage_sameLayout hin.load)).trans
      hin.recorded.sameLayout
    have hpage₂ : k₂.page = k₁.page := by
      rw [loadPage_same hin.load]
      rfl
    have hprogram : ∀ t w, k₃.InProgram t w ↔ k.InProgram t w :=
      Programs.inProgram_of_shape hlay.shape
    -- what has to be shown of the pages after the eviction
    suffices hfound : ∀ t w, k.HasPage t w →
        (¬ k.InProgram t w → (k₁.page t w).location ≠ .EXEC) ∧
        ((k₁.page t w).location = .SWAP →
          g.recordWritten k op t w = some (k₁.page t w).byteOffset) by
      refine ⟨hs, hprog, fun t w hp hnot => ?_, fun t w hp hswap => ?_⟩
      · rw [ht.hasPage, hlay.hasPage] at hp
        rw [Programs.inProgram_of_shape ht.shape, hprogram] at hnot
        rw [ht.page, hin.recorded.page]
        split
        · simp
        · rw [hpage₂]
          exact (hfound t w hp).1 hnot
      · rw [ht.hasPage, hlay.hasPage] at hp
        rw [ht.page, hin.recorded.page] at hswap ⊢
        split at hswap
        · cases hswap
        · rename_i hne
          rw [if_neg hne]
          rw [hpage₂] at hswap ⊢
          exact (hfound t w hp).2 hswap
    intro t w hp
    rcases findFrame_victim h.sound.frames hin.found with ⟨hvic, hpage⟩ | ⟨hvic, he⟩
    · have hsame : g.recordWritten k op = g.written := by
        simp [Places.recordWritten, swappedOut, hfault, hvic]
      rw [hpage, hsame]
      exact ⟨h.stack t w hp, h.swap t w hp⟩
    · have hdrop := tlbOnly_dropFrame k ppn
      by_cases hself : t = (k.IPT ppn).PID ∧ w = (k.IPT ppn).virtualPage
      · obtain ⟨rfl, rfl⟩ := hself
        obtain ⟨-, hlt, hv, -⟩ : chooseVictim k op.random = .ok ppn ∧ ppn < NumPhysPages ∧
            (k.IPT ppn).valid = true ∧ True := by
          rcases findFrame_spec hin.found with ⟨m, hfree, -⟩ | ⟨-, hfull⟩
          · simp [victim, hfree] at hvic
          · obtain ⟨hc, hlt, hv, -⟩ := handleMemoryFull_spec hfull
            exact ⟨hc, hlt, hv, trivial⟩
        have hwent := he.wentTo
        rw [← hdrop.PID, ← hdrop.virtualPage]
        cases hwent with
        | exec hclean _ _ hpage =>
          -- a clean victim is a page of the program
          simp only [KeepsStackPages, hfault, hvic, Option.bind_some, Option.all_some, hclean,
            Bool.false_or, decide_eq_true_eq] at hkeeps
          rw [hpage]
          refine ⟨fun hnot => absurd ?_ hnot, fun hloc => (by cases hloc)⟩
          rw [hdrop.PID, hdrop.virtualPage]
          exact inProgram_of_lt hkeeps
        | swap slot m hdirty hfree _ _ hpage =>
          obtain ⟨k₄, hwrite⟩ := he.written (by rw [hdrop.valid]; exact hv) hdirty
          refine ⟨fun _ => by rw [hpage]; simp, fun _ => ?_⟩
          simp [Places.recordWritten, swappedOut, hfault, hvic, hdirty, hwrite]
      · rw [he.other t w (by rw [hdrop.PID, hdrop.virtualPage]; exact hself), hdrop.page]
        refine ⟨h.stack t w hp, fun hswap => ?_⟩
        rw [← h.swap t w hp hswap]
        -- the write is for another page
        cases hout : swappedOut k op with
        | none => simp only [Places.recordWritten, hout]
        | some write =>
          obtain ⟨s', v', off⟩ := write
          simp only [Places.recordWritten, hout]
          simp only [swappedOut, hfault, hvic, Option.bind_some] at hout
          split at hout
          · split at hout
            · cases hout
              rw [if_neg (by rw [hdrop.PID, hdrop.virtualPage]; exact hself)]
            · cases hout
          · cases hout

theorem created (h : PlaceInv k g) (tid : Nat) (new : Executable) :
    PlaceInv (createSpace k tid new) ⟨g.written, Function.update g.exe k.spaceCount new⟩ := by
  have hfresh := h.sound.spaces.fresh k.spaceCount le_rfl
  have hself : (createSpace k tid new).spaces k.spaceCount = some (AddrSpace.new new tid) :=
    Function.update_self _ _ _
  have hother : ∀ t, t ≠ k.spaceCount → (createSpace k tid new).spaces t = k.spaces t :=
    fun t ht => Function.update_of_ne ht _ _
  refine ⟨h.sound.created tid new, h.programs.created h.sound tid new, fun t v hp hnot => ?_,
    fun t v hp hswap => ?_⟩
  · by_cases hts : t = k.spaceCount
    · subst hts
      simp only [Kernel.page, hself, AddrSpace.new]
      rw [if_neg]
      · simp
      · intro hlt
        exact hnot ⟨_, shape_some hself, hlt⟩
    · have hspace := hother t hts
      simp only [Kernel.HasPage, Kernel.numPages, Kernel.page, Kernel.InProgram, Kernel.shape,
        hspace] at hp hnot ⊢
      exact h.stack t v hp hnot
  · by_cases hts : t = k.spaceCount
    · subst hts
      simp only [Kernel.page, hself, AddrSpace.new] at hswap
      split at hswap <;> cases hswap
    · have hspace := hother t hts
      simp only [Kernel.HasPage, Kernel.numPages, Kernel.page, hspace] at hp hswap ⊢
      exact h.swap t v hp hswap

theorem forked (h : PlaceInv k g) {tid s : Nat} {sp : AddrSpace} (hs : k.spaces s = some sp)
    (junk : Nat → Int) : PlaceInv (k.setSpace s (sp.fork tid junk)) g := by
  have he := extended_fork hs tid junk
  have hprog : ∀ t v, k.InProgram t v → (k.setSpace s (sp.fork tid junk)).InProgram t v := by
    rintro t v ⟨sp', hsp', hlt⟩
    by_cases hts : t = s
    · subst hts
      rw [shape_some hs] at hsp'
      cases hsp'
      exact ⟨_, shape_some (Function.update_self _ _ _), hlt⟩
    · refine ⟨sp', ?_, hlt⟩
      rw [← hsp']
      simp [Kernel.shape, Kernel.setSpace, Function.update_of_ne hts]
  -- the pages of the new stack are nowhere
  have hnew : ∀ t v, (k.setSpace s (sp.fork tid junk)).HasPage t v → ¬ k.HasPage t v →
      ((k.setSpace s (sp.fork tid junk)).page t v).location = .VOID := by
    intro t v hp hnot
    rw [Kernel.HasPage, setSpace_numPages] at hp
    split at hp
    · rename_i hts
      subst hts
      simp only [Kernel.HasPage, Kernel.numPages, hs] at hnot
      rw [setSpace_page, if_pos rfl]
      simp [AddrSpace.fork, hnot]
    · exact absurd hp hnot
  refine ⟨h.sound.forked hs tid junk, h.programs.forked h.sound hs junk, fun t v hp hnot => ?_,
    fun t v hp hswap => ?_⟩
  · by_cases hold : k.HasPage t v
    · rw [(he.hasPage hold).2]
      exact h.stack t v hold fun hin => hnot (hprog t v hin)
    · rw [hnew t v hp hold]
      simp
  · by_cases hold : k.HasPage t v
    · rw [(he.hasPage hold).2] at hswap ⊢
      exact h.swap t v hold hswap
    · rw [hnew t v hp hold] at hswap
      cases hswap

/-- A step without a byte access writes nothing to swap. -/
theorem recordWritten_of_address {op : Op} (hop : op.address = none) :
    g.recordWritten k op = g.written := by
  simp [Places.recordWritten, swappedOut, faultingPage, hop]

/-- A byte access that hits the TLB writes nothing to swap. -/
theorem recordWritten_of_hit {op : Op} {addr tid s pa : Nat} {sp : AddrSpace} {w : Bool}
    {k₁ : Kernel} (hop : op.address = some addr) (hrun : k.running = some (tid, s, sp))
    (htr : translate k addr w = .ok (k₁, pa)) : g.recordWritten k op = g.written := by
  have hhit : tlbEntryOfPage k (addr / PageSize) ≠ none := by
    intro hnone
    simp [translate, hnone] at htr
  simp [Places.recordWritten, swappedOut, faultingPage, hop, hrun, hhit]

/-- **One step of the machine** that evicts no clean stack page. -/
theorem step {c c' : Kernel × Places} {op : Op} (h : PlaceInv c.1 c.2)
    (hstep : Lib.Restrict PlaceStep KeepsStackPages c op c') : PlaceInv c'.1 c'.2 := by
  obtain ⟨⟨⟨hen, event, hnext⟩, hg⟩, hkeeps⟩ := hstep
  obtain ⟨k, g⟩ := c
  obtain ⟨k', g'⟩ := c'
  dsimp only at hen hnext hg h ⊢
  subst hg
  have hs := h.sound.stepSpec (next_spec hen hnext)
  cases next_spec hen hnext with
  | loadHit hrun htr =>
    have ht := tlbOnly_translate htr
    rw [recordWritten_of_hit rfl hrun htr]
    exact h.samePages hs (h.programs.tlbOnly ht) ht.shape ht.page
  | storeHit hrun htr =>
    have ht := tlbOnly_translate htr
    rw [recordWritten_of_hit rfl hrun htr]
    refine h.samePages hs ?_ ht.shape ht.page
    exact (h.programs.tlbOnly ht).same rfl rfl fun f _ hv hd => ⟨hv, hd, rfl, rfl⟩
  | miss hop hrun hmiss hfault =>
    have hexe : recordExe k g.exe op = g.exe := by
      cases op with
      | create => cases hop
      | _ => rfl
    rw [hexe]
    exact h.missed hop hrun hmiss hkeeps hfault
  | @run tid space hthread =>
    have ht : TLBOnly k (if k.currentSpace.isSome then saveState k else k) := by
      split
      · exact tlbOnly_saveState k
      · exact .refl k
    rw [recordWritten_of_address rfl]
    refine h.samePages hs ?_ ht.shape ht.page
    exact (h.programs.tlbOnly ht).same rfl rfl fun f _ hv hd => ⟨hv, hd, rfl, rfl⟩
  | newThread space hspace =>
    rw [recordWritten_of_address rfl]
    refine h.samePages hs ?_ rfl rfl
    exact h.programs.same rfl rfl fun f _ hv hd => ⟨hv, hd, rfl, rfl⟩
  | @create tid hcur hthread new =>
    rw [recordWritten_of_address rfl]
    exact h.created tid new
  | fork hrun hfresh junk =>
    rw [recordWritten_of_address rfl]
    exact h.forked (running_some hrun).2.2.1 junk
  | @exit tid s sp pages hrun hpages =>
    obtain ⟨-, -, hsp, -⟩ := running_some hrun
    have hlay := clearStack_sameLayout (h.sound.stackPages hsp hpages)
    rw [recordWritten_of_address rfl]
    refine h.same hs ?_ fun t v hp => ⟨(hlay.hasPage t v).mp hp,
      clearStack_samePlace k s pages t v, (Programs.inProgram_of_shape hlay.shape t v).mpr⟩
    exact (h.programs.exited h.sound hsp hpages).same rfl rfl fun f _ hv hd => ⟨hv, hd, rfl, rfl⟩
  | @delete tid s sp hrun junk =>
    obtain ⟨-, -, -, hpage⟩ := Programs.deleteSpace_others k s junk
    obtain ⟨hlay, -⟩ := deleteLoop_rule (I := fun _ => True) (k := k) s junk
      (fun _ _ _ _ _ => trivial) trivial le_rfl
    have hlay := hlay.trans (tlbOnly_saveState _).sameLayout
    rw [recordWritten_of_address rfl]
    refine h.same hs ?_ fun t v hp => ?_
    · exact (h.programs.deleted h.sound s junk).same rfl rfl
        fun f _ hv hd => ⟨hv, hd, rfl, rfl⟩
    · obtain ⟨hts, hp'⟩ := deleteSpace_hasPage tid hlay hp
      have hsame := hpage t v hts
      refine ⟨hp', ⟨congrArg (·.location) hsame, congrArg (·.byteOffset) hsame⟩, ?_⟩
      rintro ⟨sp', hsp', hlt⟩
      exact ⟨sp', by rw [deleteSpace_shape tid hlay hts]; exact hsp', hlt⟩

/-- The read of the next step is from the right place. -/
theorem reload (h : PlaceInv k g) {op : Op} {rd : Reload} (hr : VM.reload k op = some rd) :
    RightPlace (k, g) rd := by
  unfold VM.reload at hr
  obtain ⟨⟨s, vpn⟩, hfault, hr⟩ := Option.bind_eq_some_iff.mp hr
  have hlookup : lookupIPT k s vpn = none := by
    unfold faultingPage at hfault
    split at hfault
    · split at hfault
      · rename_i hboth
        cases hfault
        exact hboth.2
      · cases hfault
    · cases hfault
  dsimp only at hr
  split at hr
  · cases hr
  · rename_i k₁ ppn hfound
    have hpage := h.sound.frames.findFrame_page hfound hlookup
    rw [hpage] at hr
    split at hr
    · rename_i hp
      rw [(h.sound.frames.findFrame_sameLayout hfound).hasPage] at hp
      split at hr
      · rename_i hloc
        cases hr
        have hprog : k.InProgram s vpn := by
          by_contra hnot
          exact h.stack s vpn hp hnot hloc
        refine ⟨hprog, h.programs.offset s vpn hprog ?_⟩
        rcases h.programs.page s vpn hprog with hexec | ⟨-, hmain | hswap⟩
        · exact hexec.2
        · rw [hloc] at hmain
          cases hmain
        · rw [hloc] at hswap
          cases hswap
      · rename_i hloc
        cases hr
        exact h.swap s vpn hp hloc
      · cases hr
      · cases hr
    · cases hr

end PlaceInv

/-- **`reload` is the read that the fault makes**: the page gets the bytes of the file, or
of the swap file, at its position. -/
theorem reload_bytes {k k' : Kernel} {op : Op} {tid s addr : Nat} {sp : AddrSpace} {rd : Reload}
    (hs : Sound k) (hop : op.address = some addr) (hrun : k.running = some (tid, s, sp))
    (hr : reload k op = some rd) (hm : handleTLBMiss k s addr op.random = .ok k') :
    ∃ ppn : Nat, (k'.page s (addr / PageSize)).physicalPage = (ppn : Int) ∧
      ∀ j < PageSize, match rd with
        | .exec _ _ position => ∀ b, sp.executable[position.toNat + j]? = some b →
            k'.mainMemory (PageSize * ppn + j) = b
        | .swap _ _ position =>
            k'.mainMemory (PageSize * ppn + j) = k'.swapFile (position.toNat + j) := by
  unfold reload at hr
  obtain ⟨⟨t, vpn⟩, hfault, hr⟩ := Option.bind_eq_some_iff.mp hr
  simp only [faultingPage, hop, hrun] at hfault
  split at hfault
  case isFalse => cases hfault
  case isTrue hboth =>
    cases hfault
    rcases handleTLBMiss_cases hs.spaces hs.frames hm with
      ⟨ppn, hl, -⟩ | ⟨k₁, ppn, sp', k₂, k₃, -, hin, rfl⟩
    · rw [hboth.2] at hl
      cases hl
    · have ht := tlbOnly_populate k₃ ppn
      have hk₂ := loadPage_same hin.load
      have hmem : k₃.mainMemory = k₂.mainMemory := by rw [hin.recorded.rest]
      have hfile : k₃.swapFile = k₁.swapFile := by rw [hin.recorded.rest, hk₂]
      have hentry : k₁.page s (addr / PageSize) = sp'.pageTable (addr / PageSize) := by
        simp [Kernel.page, hin.space]
      have hexe : sp'.executable = sp.executable := by
        have hshape := congrFun hin.foundLayout.shape s
        rw [shape_some hin.space, shape_some (running_some hrun).2.2.1] at hshape
        exact congrArg (·.executable) (Option.some.inj hshape)
      refine ⟨ppn, ?_, fun j hj => ?_⟩
      · rw [ht.page, hin.recorded.page, if_pos ⟨rfl, rfl⟩]
      · rw [ht.mainMemory, ht.swapFile, hmem, hfile, loadPage_byte hj hin.load]
        simp only [hin.found, if_pos hin.page, hentry] at hr
        unfold Kernel.incoming
        cases hloc : (sp'.pageTable (addr / PageSize)).location with
        | EXEC =>
          simp only [hloc, Option.some.injEq] at hr
          subst hr
          dsimp only
          intro b hb
          rw [hexe, hb]
          rfl
        | SWAP =>
          simp only [hloc, Option.some.injEq] at hr
          subst hr
          rfl
        | VOID => simp [hloc] at hr
        | MAIN => simp [hloc] at hr

/-! ## Runs -/

theorem placeInv_of_reachable {useFIFO : Bool} {g₀ : Places} {c : Kernel × Places}
    (h : Lib.Reachable (Lib.Restrict PlaceStep KeepsStackPages) (Kernel.init useFIFO, g₀) c) :
    PlaceInv c.1 c.2 :=
  h.invariant (I := fun c => PlaceInv c.1 c.2) (PlaceInv.init useFIFO g₀)
    fun _ _ _ hc hstep => hc.step hstep

/-- **Pages are reloaded from where they live** in every run that evicts no clean stack
page: a read of the executable is of a page of the program at its place in the file, and a
read of swap is of the slot that the same page was last written to. -/
theorem reloads_from_place {useFIFO : Bool} {g₀ : Places} {c : Kernel × Places}
    (h : Lib.Reachable (Lib.Restrict PlaceStep KeepsStackPages) (Kernel.init useFIFO, g₀) c)
    {op : Op} {rd : Reload} (hr : reload c.1 op = some rd) : RightPlace c rd :=
  (placeInv_of_reachable h).reload hr

/-- The step beside the record as a function. -/
def placeStep? (c : Kernel × Places) (op : Op) : Option (Kernel × Places) :=
  (step? c.1 op).map fun k' => (k', ⟨c.2.recordWritten c.1 op, recordExe c.1 c.2.exe op⟩)

theorem placeStep_of_placeStep? {c c' : Kernel × Places} {op : Op} (h : placeStep? c op = some c') :
    PlaceStep c op c' := by
  obtain ⟨k', hk', rfl⟩ := Option.map_eq_some_iff.mp h
  exact ⟨step_of_step? hk', rfl⟩

/-- Nothing written yet. -/
def Places.none : Places := ⟨fun _ _ => Option.none, fun _ => .blank 0⟩

/-- A program of 40 pages stores to page 5 and touches 33 others: page 5 is in slot 0. -/
def storeAndPush : List Op :=
  [.create (.blank (40 * PageSize)), .store (5 * PageSize) 7 0, .store (5 * PageSize) 7 0] ++
  (List.range' 6 33).map fun v => .load (v * PageSize) 0

set_option maxRecDepth 100000 in
theorem reloads_from_place_swapped : ∃ c, Lib.Reachable (Lib.Restrict PlaceStep KeepsStackPages)
      (Kernel.init true, Places.none) c ∧
    reload c.1 (.load (5 * PageSize) 0) = some (.swap 0 5 0) ∧ RightPlace c (.swap 0 5 0) := by
  have hexec : (Lib.execute (Lib.guarded placeStep? KeepsStackPages) (Kernel.init true, Places.none)
      storeAndPush).any (fun c =>
        decide (reload c.1 (.load (5 * PageSize) 0) = some (.swap 0 5 0))) = true := by
    decide +kernel
  obtain ⟨c, hc, hp⟩ := (Option.any_eq_true _ _).mp hexec
  have hreach := Lib.reachable_of_guarded (fun _ _ _ => placeStep_of_placeStep?) hc
  have hread := of_decide_eq_true hp
  exact ⟨c, hreach, hread, reloads_from_place hreach hread⟩

/-- A program of 40 pages reads the first page of its stack, page 40, and then 32 pages of
its code: page 40 was never written to. -/
def readStackAndPush : List Op :=
  .create (.blank (40 * PageSize)) :: .load (40 * PageSize) 0 ::
  (List.range 32).map fun v => .load (v * PageSize) 0

set_option maxRecDepth 100000 in
/-- The stack page is read from the executable, at offset -1. -/
theorem stack_page_reloaded_from_executable :
    ∃ c, Lib.Reachable PlaceStep (Kernel.init true, Places.none) c ∧
      enabled c.1 (.load (40 * PageSize) 0) = true ∧
      reload c.1 (.load (40 * PageSize) 0) = some (.exec 0 40 (-1)) ∧
      ¬ RightPlace c (.exec 0 40 (-1)) := by
  have hexec : (Lib.execute placeStep? (Kernel.init true, Places.none) readStackAndPush).any
      (fun c => decide (enabled c.1 (.load (40 * PageSize) 0) = true ∧
        reload c.1 (.load (40 * PageSize) 0) = some (.exec 0 40 (-1)))) = true := by
    decide +kernel
  obtain ⟨c, hc, hp⟩ := (Option.any_eq_true _ _).mp hexec
  obtain ⟨hen, hread⟩ := of_decide_eq_true hp
  refine ⟨c, ⟨_, Lib.path_of_execute (fun _ _ _ => placeStep_of_placeStep?) hc⟩, hen, hread, ?_⟩
  rintro ⟨-, hoff⟩
  have hneg := Int.natCast_nonneg ((c.2.exe 0).code.inFileAddr + 40 * PageSize)
  rw [← hoff] at hneg
  omega

end Nachos.VM

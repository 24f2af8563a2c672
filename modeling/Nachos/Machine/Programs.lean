import Nachos.Machine.Paging
import Nachos.VM.StackRanges

/-!
# The simulated processor: programs on demand-paged memory

A process begins with its executable in the file, and its pages come and go through the TLB, the
frames and the swap file, at any fetch, load or store. Between any two instructions other processes
may run. The program runs as on a memory of its own that holds its executable (`runs_as_flat`).

Faults that would show a program what other processes left in a frame, or another byte of the file
than its header says, are left out (`VM.FillsZero`), and so are programs that use a register in the
instruction after the one that loads it (`Safe`).
-/

namespace Nachos.Machine

open Lib Lib.Mem
open VM (Kernel History Op AddrSpace Executable PageSize TLBSize tlbEntryOfPage exitedStack
  handleTLBMiss FillsZero FreshStep)

/-! ### Accesses -/

section

variable {tid s : Nat} {c c' : Kernel × History} {f : Mem} {addr : Word} {size : Size} {w : Bool}

theorem Translate_ok {k k' : Kernel} {pa : Nat} (h : Translate k addr size w = .ok (k', pa)) :
    ¬ size.Misaligned addr ∧ VM.translate k addr.toNat w = .ok (k', pa) := by
  unfold Translate at h
  split at h
  · cases h
  · rename_i haligned
    refine ⟨haligned, ?_⟩
    split at h
    · rename_i htr
      cases h
      exact htr
    · cases h

/-- An access fails because it is not aligned, or because its page is not in the TLB. -/
theorem View.translate_error (h : View tid s c f) {which : ExceptionType}
    (herror : Translate c.1 addr size w = .error which) :
    (size.Misaligned addr ∧ which = .AddressErrorException) ∨
      (which = .PageFaultException ∧ tlbEntryOfPage c.1 (addr.toNat / PageSize) = none) := by
  unfold Translate at herror
  split at herror
  · rename_i hmisaligned
    cases herror
    exact .inl ⟨hmisaligned, rfl⟩
  · rcases h.translate_cases addr.toNat w with ⟨k', pa, htr⟩ | ⟨htr, hmiss⟩
    · rw [htr] at herror
      cases herror
    · rw [htr] at herror
      cases herror
      exact .inr ⟨rfl, hmiss⟩

/-- **The machine's memory behaves as the program's own**, but for page faults. -/
theorem paged_simulates (tid s : Nat) : Simulates (Paged.memory s) Flat.memory (View tid s) where
  read := by
    rintro ⟨k, g⟩ m' f a size v h hread
    replace hread : Paged.ReadMem (k, g) a size = .ok (m', v) := hread
    unfold Paged.ReadMem at hread
    split at hread
    · rename_i k' pa htranslate
      cases hread
      obtain ⟨haligned, htr⟩ := Translate_ok htranslate
      have hwithin := Size.within_page haligned
      refine ⟨?_, h.translated htr⟩
      show Flat.ReadMem f a size = _
      have hvalue : size.get (mainBytes k'.mainMemory) pa = size.get f a.toNat :=
        Size.get_congr fun j hj => h.byte_eq htr (by omega)
      rw [Flat.ReadMem, if_neg haligned, hvalue]
    · cases hread
  readTrap := by
    rintro c f a size which h hread hwhich
    replace hread : Paged.ReadMem c a size = .error which := hread
    unfold Paged.ReadMem at hread
    split at hread
    · cases hread
    · rename_i herror
      cases hread
      rcases h.translate_error herror with ⟨hmisaligned, rfl⟩ | ⟨rfl, -⟩
      · exact if_pos hmisaligned
      · exact absurd rfl hwhich
  write := by
    rintro ⟨k, g⟩ m' f a size v h hwrite
    replace hwrite : Paged.WriteMem s (k, g) a size v = .ok m' := hwrite
    unfold Paged.WriteMem at hwrite
    split at hwrite
    · rename_i k' pa htranslate
      cases hwrite
      obtain ⟨haligned, htr⟩ := Translate_ok htranslate
      refine ⟨size.put f a.toNat v, ?_, h.stored htr v (Size.within_page haligned)⟩
      exact if_neg haligned
    · cases hwrite
  writeTrap := by
    rintro c f a size v which h hwrite hwhich
    replace hwrite : Paged.WriteMem s c a size v = .error which := hwrite
    unfold Paged.WriteMem at hwrite
    split at hwrite
    · cases hwrite
    · rename_i herror
      cases hwrite
      rcases h.translate_error herror with ⟨hmisaligned, rfl⟩ | ⟨rfl, -⟩
      · exact if_pos hmisaligned
      · exact absurd rfl hwhich

/-! ### Faults -/

/-- `ExceptionHandler` for a page fault. -/
def Handled (s : Nat) (r : Registers) (c c' : Kernel × History) : Prop :=
  ∃ rand, FillsZero c (.load (r BadVAddrReg).toNat rand) ∧
    handleTLBMiss c.1 s (r BadVAddrReg).toNat rand = .ok c'.1 ∧ c'.2 = c.2

/-- The TLB after a miss has the page, and what it had. -/
theorem missed_sub {k k' : Kernel} {addr r : Nat} (h : VM.Ready k)
    (hm : handleTLBMiss k s addr r = .ok k') {i : Nat} (hi : i < TLBSize)
    (hv : (k'.tlb i).valid = true) : (k'.tlb i).virtualPage = addr / PageSize ∨
      ((k.tlb i).valid = true ∧ (k'.tlb i).virtualPage = (k.tlb i).virtualPage) := by
  have hpopulate : ∀ (k₃ : Kernel) (ppn : Nat), (k₃.IPT ppn).virtualPage = addr / PageSize →
      ((VM.populateTLBFromIPTEntry k₃ ppn).tlb i).valid = true →
      ((VM.populateTLBFromIPTEntry k₃ ppn).tlb i).virtualPage = addr / PageSize ∨
        ((k₃.tlb i).valid = true ∧
          ((VM.populateTLBFromIPTEntry k₃ ppn).tlb i).virtualPage = (k₃.tlb i).virtualPage) := by
    intro k₃ ppn hpage hvalid
    rw [VM.populate_tlb] at hvalid ⊢
    split at hvalid
    · rw [if_pos ‹_›]
      left
      exact ((VM.tlbOnly_propogate k₃ k₃.currentTLB).virtualPage ppn).trans hpage
    · rw [if_neg ‹_›]
      exact .inr ⟨hvalid, rfl⟩
  rcases VM.handleTLBMiss_cases h.sound.spaces h.sound.frames hm with
    ⟨ppn, hl, rfl⟩ | ⟨k₁, ppn, sp, k₂, k₃, hl, hin, rfl⟩
  · exact hpopulate k ppn (VM.lookupIPT_some hl).2.2.2 hv
  · have hk₂ := VM.loadPage_same hin.load
    have htlb : k₃.tlb = k₁.tlb := by rw [hin.recorded.rest, hk₂]
    have hpage₂ : k₂.page = k₁.page := by rw [hk₂]; rfl
    have hp : k.HasPage s (addr / PageSize) := (hin.foundLayout.hasPage s _).mp hin.page
    have hpage : (k₃.IPT ppn).virtualPage = addr / PageSize := by
      rw [hin.recorded.IPT, if_pos rfl]
      dsimp only
      rw [hpage₂, hin.foundPage]
      exact h.sound.spaces.vpn s _ hp
    rcases hpopulate k₃ ppn hpage hv with hnew | ⟨hold, hsame⟩
    · exact .inl hnew
    · rw [htlb] at hold hsame
      obtain ⟨hv₀, hvp⟩ := (h.tlb.findFrame h.sound.frames hin.found).2 i hi hold
      exact .inr ⟨hv₀, hsame.trans hvp⟩

theorem Faulted.translate {r : Registers} (h : Faulted (Paged.memory s) r c) :
    ∃ size w, Translate c.1 (r BadVAddrReg) size w = .error .PageFaultException := by
  rcases h with ⟨size, hread⟩ | ⟨size, v, hwrite⟩
  · replace hread : Paged.ReadMem c (r BadVAddrReg) size = _ := hread
    unfold Paged.ReadMem at hread
    split at hread
    · cases hread
    · rename_i herror
      cases hread
      exact ⟨size, false, herror⟩
  · replace hwrite : Paged.WriteMem s c (r BadVAddrReg) size v = _ := hwrite
    unfold Paged.WriteMem at hwrite
    split at hwrite
    · cases hwrite
    · rename_i herror
      cases hwrite
      exact ⟨size, true, herror⟩

/-- **A fault that is handled** shows the program nothing. -/
theorem View.handled (h : View tid s c f) {r : Registers} (hfault : Faulted (Paged.memory s) r c)
    (hhandled : Handled s r c c') : View tid s c' f := by
  obtain ⟨k, g⟩ := c
  obtain ⟨k', g'⟩ := c'
  obtain ⟨rand, hfills, hm, hg⟩ := hhandled
  obtain ⟨sp, hrun⟩ := h.running
  dsimp only at hm hg
  subst hg
  have hmiss : tlbEntryOfPage k ((r BadVAddrReg).toNat / PageSize) = none := by
    obtain ⟨size, w, herror⟩ := hfault.translate
    rcases h.translate_error herror with ⟨-, hwhich⟩ | ⟨-, hmiss⟩
    · cases hwhich
    · exact hmiss
  have hlive : exitedStack k s ((r BadVAddrReg).toNat / PageSize) = false := by
    simpa [VM.LiveAccess, Op.address, hrun] using hfills.1
  have hlay := VM.handleTLBMiss_sameLayout h.ready.sound.spaces h.ready.sound.frames hm
  refine ⟨h.fresh.missed rfl hrun hmiss hfills hm, h.writable.missed hm, hlay.running hrun,
    fun i hi hv => ?_, h.bytes⟩
  show exitedStack k' s (k'.tlb i).virtualPage = false
  rw [hlay.exitedStack]
  rcases missed_sub h.ready hm hi hv with hnew | ⟨hold, hsame⟩
  · rw [hnew]
    exact hlive
  · rw [hsame]
    exact h.live i hi hold

/-! ### Other processes -/

/-- A step in which the space `s` has no part, but that the processor may be taken from it. -/
def Elsewhere (s : Nat) (c : Kernel × History) (op : Op) : Prop :=
  FillsZero c op ∧ ((∃ u, op = .run u) ∨ c.1.currentSpace ≠ some s)

/-- Other threads run, and then the thread `tid` again. -/
def Away (tid s : Nat) (c c' : Kernel × History) : Prop :=
  ∃ ops d, Path (Restrict FreshStep (Elsewhere s)) c ops d ∧ Restrict FreshStep FillsZero d (.run tid) c'

/-- The thread `tid` of the space `s` does not run, or not yet, and would see the memory `f`. -/
structure Waits (tid s : Nat) (c : Kernel × History) (f : Mem) : Prop where
  fresh : VM.Fresh c.1 c.2
  writable : VM.Writable c.1
  thread : c.1.threads tid = some (some s)
  space : (c.1.shape s).isSome = true
  bytes : ∀ a, f a = seen c.2 s a

/-- What other processes store, the program does not see. -/
theorem seen_record {g : History} {event : VM.Event} (exe : Nat → Executable)
    (hexe : exe s = g.exe s) (hevent : ∀ addr v, event ≠ .stored s addr v) (a : Nat) :
    seen ⟨g.stored.record event, exe⟩ s a = seen g s a := by
  unfold seen VM.Flat.record
  dsimp only
  rw [hexe]
  cases event with
  | stored t addr v =>
    dsimp only
    rw [if_neg]
    rintro ⟨rfl, -⟩
    exact hevent addr v rfl
  | loaded t addr v => rfl
  | quiet => rfl

theorem recordExe_of_lt {k : Kernel} (exe : Nat → Executable) (op : Op) (h : s < k.spaceCount) :
    VM.recordExe k exe op s = exe s := by
  cases op with
  | create new => exact Function.update_of_ne (Nat.ne_of_lt h) _ _
  | _ => rfl

/-- **A step of another process.** -/
theorem Waits.step {op : Op} (h : Waits tid s c f)
    (hstep : Restrict FreshStep (Elsewhere s) c op c') : Waits tid s c' f := by
  obtain ⟨k, g⟩ := c
  obtain ⟨k', g'⟩ := c'
  obtain ⟨hfresh, hfills, haway⟩ := hstep
  have hfresh' := h.fresh.step ⟨hfresh, hfills⟩
  have hsound := h.fresh.transparent.sound
  have hthreads := h.fresh.transparent.threads
  obtain ⟨⟨hen, event, hnext, hstored⟩, hexe⟩ := hfresh
  have hspec := VM.next_spec hen hnext
  have hw := h.writable.stepSpec hspec
  obtain ⟨stored', exe'⟩ := g'
  obtain ⟨-, -, hthread, hspace, hbytes⟩ := h
  dsimp only at hen hnext hstored hexe hspec hfresh' hw hsound hthreads hthread hspace hbytes haway
  subst hstored hexe
  -- a thread that runs is of another space, unless it is switched away from
  have hother : ∀ {u t : Nat} {sp : AddrSpace}, k.running = some (u, t, sp) →
      (∀ v, op ≠ .run v) → t ≠ s := by
    intro u t sp hrun hnot
    rcases haway with ⟨v, hv⟩ | hne
    · exact absurd hv (hnot v)
    · rintro rfl
      exact hne (VM.running_some hrun).2.2.2
  have hthreadOther : ∀ {u t : Nat} {sp : AddrSpace}, k.running = some (u, t, sp) → t ≠ s →
      tid ≠ u := by
    rintro u t sp hrun hts rfl
    obtain ⟨-, hthread', -, -⟩ := VM.running_some hrun
    rw [hthread] at hthread'
    cases hthread'
    exact hts rfl
  have hlt : s < k.spaceCount := by
    by_contra hge
    have hnone := hsound.spaces.fresh s (Nat.not_lt.mp hge)
    simp [Kernel.shape, hnone] at hspace
  have hexe := recordExe_of_lt g.exe op hlt
  have hsame : (∀ addr v, event ≠ .stored s addr v) →
      ∀ a, f a = seen ⟨g.stored.record event, VM.recordExe k g.exe op⟩ s a := fun hevent a =>
    (hbytes a).trans (seen_record _ hexe hevent a).symm
  have hlayout : VM.SameLayout k k' → k'.threads tid = some (some s) ∧ (k'.shape s).isSome = true :=
    fun hlay => ⟨(congrFun hlay.threads tid).trans hthread, by rw [hlay.shape]; exact hspace⟩
  cases hspec with
  | loadHit hrun htr =>
    obtain ⟨ht, hs⟩ := hlayout (VM.tlbOnly_translate htr).sameLayout
    exact ⟨hfresh', hw, ht, hs, hsame (by simp)⟩
  | @storeHit tid' t sp addr value r k₁ pa hrun htr =>
    have hlay := (VM.tlbOnly_translate htr).sameLayout
    have hts := hother hrun (by simp)
    refine ⟨hfresh', hw, ?_, ?_, hsame ?_⟩
    · show k₁.threads tid = _
      rw [hlay.threads]
      exact hthread
    · show (k₁.shape s).isSome = true
      rw [hlay.shape]
      exact hspace
    · rintro addr' v heq
      cases heq
      exact hts rfl
  | miss hop hrun hmiss hfault =>
    obtain ⟨ht, hs⟩ := hlayout (VM.handleTLBMiss_sameLayout hsound.spaces hsound.frames hfault)
    exact ⟨hfresh', hw, ht, hs, hsame (by simp)⟩
  | @run u space _ =>
    have hlay : VM.TLBOnly k (if k.currentSpace.isSome then VM.saveState k else k) := by
      split
      · exact VM.tlbOnly_saveState k
      · exact .refl k
    refine ⟨hfresh', hw, ?_, ?_, hsame (by simp)⟩
    · exact (congrFun hlay.threads tid).trans hthread
    · rw [show (VM.schedulerRun k u).shape = k.shape from hlay.shape]
      exact hspace
  | newThread space hspace' =>
    refine ⟨hfresh', hw, ?_, hspace, hsame (by simp)⟩
    exact (Function.update_of_ne (Nat.ne_of_lt (hthreads tid _ hthread)) _ _).trans hthread
  | @create u hcur hnone exe =>
    refine ⟨hfresh', hw, ?_, ?_, hsame (by simp)⟩
    · have hne : tid ≠ u := by
        rintro rfl
        rw [hthread] at hnone
        cases hnone
      exact (Function.update_of_ne hne _ _).trans hthread
    · simpa [Kernel.shape, VM.createSpace, Kernel.setSpace, Function.update_of_ne (Nat.ne_of_lt hlt)]
        using hspace
  | @fork u t sp hrun hnew junk =>
    have hts := hother hrun (by simp)
    refine ⟨hfresh', hw, hthread, ?_, hsame (by simp)⟩
    simpa [Kernel.shape, Kernel.setSpace, Function.update_of_ne hts.symm] using hspace
  | @exit u t sp pages hrun hpages =>
    have hts := hother hrun (by simp)
    obtain ⟨-, -, hsp, -⟩ := VM.running_some hrun
    have hlay := VM.clearStack_sameLayout (hsound.stackPages hsp hpages)
    have hne := hthreadOther hrun hts
    refine ⟨hfresh', hw, ?_, ?_, hsame (by simp)⟩
    · refine (Function.update_of_ne hne _ _).trans ?_
      rw [show (VM.clearStack k t pages).threads = k.threads from hlay.threads]
      exact hthread
    · rw [show ((VM.clearStack k t pages).finish u).shape = k.shape from hlay.shape]
      exact hspace
  | @delete u t sp hrun junk =>
    have hts := hother hrun (by simp)
    have hne := hthreadOther hrun hts
    obtain ⟨hloop, -⟩ := VM.deleteLoop_rule (I := fun _ => True) (k := k) t junk
      (fun _ _ _ _ _ => trivial) trivial le_rfl
    have hlay := hloop.trans (VM.tlbOnly_saveState _).sameLayout
    refine ⟨hfresh', hw, ?_, ?_, hsame (by simp)⟩
    · refine (Function.update_of_ne hne _ _).trans ?_
      rw [show (VM.deleteSpace k t junk).threads = k.threads from hlay.threads]
      exact hthread
    · rw [VM.deleteSpace_shape u hlay hts.symm]
      exact hspace

/-- The thread runs again: its TLB is empty. -/
theorem Waits.again (h : Waits tid s c f) (hstep : Restrict FreshStep FillsZero c (.run tid) c') :
    View tid s c' f := by
  obtain ⟨k, g⟩ := c
  obtain ⟨k', g'⟩ := c'
  have hfresh' := h.fresh.step hstep
  have htlb := h.fresh.transparent.tlb
  obtain ⟨⟨⟨hen, event, hnext, hstored⟩, hexe⟩, -⟩ := hstep
  have hw := h.writable.stepSpec (VM.next_spec hen hnext)
  obtain ⟨stored', exe'⟩ := g'
  obtain ⟨-, -, hthread, hspace, hbytes⟩ := h
  dsimp only at hnext hstored hexe hfresh' hw hthread hspace hbytes htlb
  cases hnext
  subst hstored hexe
  have hlay : VM.TLBOnly k (if k.currentSpace.isSome then VM.saveState k else k) := by
    split
    · exact VM.tlbOnly_saveState k
    · exact .refl k
  refine ⟨hfresh', hw, ?_, fun i hi hv => ?_, hbytes⟩
  · obtain ⟨sp₀, hsp₀⟩ := Option.isSome_iff_exists.mp hspace
    obtain ⟨sp, hsp, -⟩ := Option.map_eq_some_iff.mp hsp₀
    refine ⟨sp, ?_⟩
    have hthread' : (VM.schedulerRun k tid).threads tid = some (some s) :=
      (congrFun hlay.threads tid).trans hthread
    have hspaces : (VM.schedulerRun k tid).spaces s = some sp := (congrFun hlay.spaces s).trans hsp
    have hcur : (VM.schedulerRun k tid).currentThread = some tid := rfl
    show (VM.schedulerRun k tid).running = _
    unfold Kernel.running
    simp [hcur, hthread', hspaces]
  · replace hv : ((if k.currentSpace.isSome then VM.saveState k else k).tlb i).valid = true := hv
    split at hv
    · rw [VM.saveState_invalid k hi] at hv
      cases hv
    · rename_i hnone
      rw [htlb.empty_of_none (by simpa using hnone) i hi] at hv
      cases hv

/-- **While other processes run**, the program's memory stays. -/
theorem View.away (h : View tid s c f) (haway : Away tid s c c') : View tid s c' f := by
  obtain ⟨ops, d, hpath, hagain⟩ := haway
  obtain ⟨sp, hrun⟩ := h.running
  obtain ⟨-, hthread, hspace, -⟩ := VM.running_some hrun
  have hwaits : Waits tid s c f :=
    ⟨h.fresh, h.writable, hthread, by simp [Kernel.shape, hspace], h.bytes⟩
  have hwaits' : Waits tid s d f :=
    hpath.invariant (I := fun c => Waits tid s c f) (fun _ _ _ hc hstep => hc.step hstep) hwaits
  exact hwaits'.again hagain

theorem paged_unseen (tid s : Nat) :
    Unseen (Paged.memory s) (View tid s) (Handled s) (Away tid s) where
  fault := fun h hfault hhandled => h.handled hfault hhandled
  switch := fun h haway => h.away haway

/-! ### A process -/

theorem freshRun_writable {C : Kernel × History → Op → Prop} (h : VM.FreshRun C c) :
    VM.Writable c.1 := by
  obtain ⟨useFIFO, exe, h⟩ := h
  refine h.invariant (I := fun c => VM.Writable c.1) (VM.Writable.init useFIFO) ?_
  rintro c₁ op c₂ hc ⟨⟨⟨hen, event, hnext, -⟩, -⟩, -⟩
  exact hc.stepSpec (VM.next_spec hen hnext)

/-- The bytes of an executable in memory, before it runs: each segment at its `virtualAddr`, and
zeros elsewhere. -/
def image (exe : Executable) : Mem := fun a => (exe.freshByte a).toBitVec

/-- A process that was just created sees its executable. -/
theorem view_created (hrun : VM.FreshRun FillsZero c) (hcur : c.1.currentThread = some tid)
    {exe : Executable} (hcreate : FreshStep c (.create exe) c') :
    View tid c.1.spaceCount c' (image exe) := by
  obtain ⟨k, g⟩ := c
  obtain ⟨k', g'⟩ := c'
  have hfills : FillsZero (k, g) (.create exe) := ⟨rfl, trivial⟩
  have hfresh := hrun.fresh
  have hfresh' := hfresh.step ⟨hcreate, hfills⟩
  have hw := freshRun_writable hrun
  obtain ⟨⟨hen, event, hnext, hstored⟩, hexe⟩ := hcreate
  have hw' := hw.stepSpec (VM.next_spec hen hnext)
  obtain ⟨stored', exe'⟩ := g'
  dsimp only at hcur hen hnext hstored hexe hfresh hfresh' hw'
  have hthread : k.threads tid = some none := by simpa [VM.enabled, hcur] using hen
  simp only [VM.next, hcur] at hnext
  cases hnext
  subst hstored hexe
  have hnone : k.currentSpace = none := by simp [Kernel.currentSpace, hcur, hthread]
  refine ⟨hfresh', hw', ⟨AddrSpace.new exe tid, ?_⟩, fun i hi hv => ?_, fun a => ?_⟩
  · simp [Kernel.running, VM.createSpace, Kernel.setSpace, hcur]
  · replace hv : (k.tlb i).valid = true := hv
    rw [hfresh.transparent.tlb.empty_of_none hnone i hi] at hv
    cases hv
  · -- the space is new: nothing was stored there
    have hstored : g.stored k.spaceCount a = none := by
      cases hs : g.stored k.spaceCount a with
      | none => rfl
      | some b => exact absurd (hfresh.transparent.known _ _ _ hs).1 (Nat.lt_irrefl _)
    show _ = ((g.stored k.spaceCount a).getD _).toBitVec
    rw [hstored]
    simp [image, VM.recordExe]

/-- **Programs run as on their own memory.** A process that was created in any run of the machine,
and then runs with page faults at any fetch, load or store, and other processes between any two
instructions, does what it does on a memory that holds its executable: the same instructions, the
same registers and memory after them, and the same exceptions. The memory is the one that the
kernel keeps for it, in the frames and slots of its pages. -/
theorem runs_as_flat (hrun : VM.FreshRun FillsZero c) (hcur : c.1.currentThread = some tid)
    {exe : Executable} (hcreate : FreshStep c (.create exe) c') {r r' : Registers} (hr : Calm r)
    (hsafe : ∀ l t, Path (FlatStep Flat.memory) (r, image exe) l t → Safe Flat.memory t.1 t.2)
    {l : List Event} {d : Kernel × History}
    (hpath : Path (UserStep (Paged.memory c.1.spaceCount) (Handled c.1.spaceCount)
      (Away tid c.1.spaceCount)) (r, c') l (r', d)) :
    ∃ q f, Path (FlatStep Flat.memory) (r, image exe) (l.filter (· = .instruction)) (q, f) ∧
      Shows q r' ∧ View tid c.1.spaceCount d f ∧
      (∀ a, d.1.HasPage c.1.spaceCount (a / PageSize) →
        exitedStack d.1 c.1.spaceCount (a / PageSize) = false →
        VM.Shows d.1 c.1.spaceCount a ⟨f a⟩) ∧
      ∀ which r'' d', OneInstruction (Paged.memory c.1.spaceCount) r' d = .trap which r'' d' →
        which ≠ .PageFaultException →
        ∃ q', OneInstruction Flat.memory q f = .trap which q' f ∧ Like q' r'' := by
  have hstart : Running (View tid c.1.spaceCount) (r, c') (r, image exe) :=
    ⟨view_created hrun hcur hcreate, hr, .inl fun _ _ => rfl⟩
  obtain ⟨⟨q, f⟩, hflat, hrunning⟩ :=
    Running.run (paged_simulates tid c.1.spaceCount) (paged_unseen tid c.1.spaceCount) hpath hstart hsafe
  refine ⟨q, f, hflat, hrunning.shows, hrunning.view, fun a hp hlive => hrunning.view.shows hp hlive,
    fun which r'' d' htrap hwhich => ?_⟩
  obtain ⟨q', hq', hlike, -⟩ :=
    hrunning.trap (paged_simulates tid c.1.spaceCount) (hsafe _ _ hflat) htrap hwhich
  exact ⟨q', hq', hlike⟩

/-! ### Running a program -/

/-- The registers of a process that starts. -/
def startRegisters (sp : AddrSpace) : Registers := fun x => BitVec.ofInt 32 (sp.InitRegisters x)

/-- A step of the machine as a function; at an interrupt only the thread itself is switched to. -/
def userStep? (tid s : Nat) (t : Registers × Kernel × History) :
    Event → Option (Registers × Kernel × History)
  | .instruction =>
    match OneInstruction (Paged.memory s) t.1 t.2 with
    | .done r c => some (r, c)
    | _ => none
  | .fault =>
    match OneInstruction (Paged.memory s) t.1 t.2 with
    | .trap .PageFaultException r c =>
      if FillsZero c (.load (r BadVAddrReg).toNat 0) then
        match handleTLBMiss c.1 s (r BadVAddrReg).toNat 0 with
        | .ok k => some (r, k, c.2)
        | .error _ => none
      else none
    | _ => none
  | .interrupt =>
    (guarded VM.freshStep? FillsZero t.2 (.run tid)).map fun c => (DelayedLoad t.1 0 0, c)

theorem userStep_of_userStep? {t t' : Registers × Kernel × History} {e : Event}
    (h : userStep? tid s t e = some t') :
    UserStep (Paged.memory s) (Handled s) (Away tid s) t e t' := by
  obtain ⟨r, c⟩ := t
  cases e with
  | instruction =>
    simp only [userStep?] at h
    split at h
    · rename_i hdone
      cases h
      exact .instruction hdone
    · cases h
  | fault =>
    simp only [userStep?] at h
    split at h
    · rename_i htrap
      split at h
      · rename_i hfills
        split at h
        · rename_i hm
          cases h
          exact .fault htrap ⟨0, hfills, hm, rfl⟩
        · cases h
      · cases h
    · cases h
  | interrupt =>
    obtain ⟨c', hc', rfl⟩ := Option.map_eq_some_iff.mp h
    exact .interrupt (.inr ⟨[], c, .nil c,
      restrict_of_guarded (fun _ _ _ => VM.freshStep_of_freshStep?) hc'⟩)

/-- `lw $2, 200($0)`, and from there on `sll $0, $0, 0`; the word at 200 is 7, which is
`srav $0, $0, $0`. -/
def loadProgram : Executable :=
  ⟨⟨0, 40, 4⟩, ⟨4, 44, 200⟩, ⟨204, 244, 0⟩,
    List.replicate 40 0 ++ [200, 0, 2, 0x8c] ++ List.replicate 196 0 ++ [7, 0, 0, 0]⟩

theorem loadProgram_word {a : Nat} (ha : a % 4 = 0) :
    wordAt (image loadProgram) a ∈ [0x8c0200c8#32, 7#32, 0#32] := by
  by_cases hlt : a < 204
  · have hall : ∀ n < 51, wordAt (image loadProgram) (4 * n) ∈ [0x8c0200c8#32, 7#32, 0#32] := by
      decide +kernel
    have hn := hall (a / 4) (by omega)
    rwa [Nat.mul_div_cancel' (Nat.dvd_of_mod_eq_zero ha)] at hn
  · have hbyte : ∀ k, image loadProgram (a + k) = 0 := by
      intro k
      have hout : loadProgram.place (a + k) = none := by
        have hdata : loadProgram.initData.place (a + k) = none := if_neg fun hin => by
          replace hin : a + k < 4 + 200 := hin.2
          omega
        have hcode : loadProgram.code.place (a + k) = none := if_neg fun hin => by
          replace hin : a + k < 0 + 4 := hin.2
          omega
        rw [Executable.place, hdata, hcode]
        rfl
      simp [image, Executable.freshByte, Executable.programByte, hout]
    have hword : wordAt (image loadProgram) a = 0 := by
      unfold wordAt
      rw [hbyte 3, hbyte 2, hbyte 1, show image loadProgram a = 0 from hbyte 0]
      decide
    rw [hword]
    decide

/-- Its instructions read no register but 0, and store nothing. -/
theorem loadProgram_decode {raw : Word} (h : raw ∈ [0x8c0200c8#32, 7#32, 0#32]) (q : Registers) :
    ¬ Hazard q (Decode raw) ∧ ∀ {f f' : Mem} {q' : Registers},
      carryOut Flat.memory q f (execute (Decode raw) q) = .done q' f' → f' = f := by
  have hlw : Decode 0x8c0200c8#32 = ⟨.OP_LW, 0, 2, 0, 200⟩ := rfl
  have hsrav : Decode 7#32 = ⟨.OP_SRAV, 0, 0, 0, 0⟩ := rfl
  have hsll : Decode 0#32 = ⟨.OP_SLL, 0, 0, 0, 0⟩ := rfl
  have hsafe : ∀ {i : Instruction}, (∀ x ∈ i.reads, x = 0) → (∀ x ∈ i.writes, x = 0) →
      ¬ i.Merges → ¬ Hazard q i := by
    intro i hreads hwrites hmerges hazard
    unfold Hazard at hazard
    split at hazard
    · exact hmerges hazard.1
    · rename_i hpending
      rcases hazard with hr | hw
      · exact hpending (hreads _ hr)
      · exact hpending (hwrites _ hw)
  simp only [List.mem_cons, List.not_mem_nil, or_false] at h
  rcases h with rfl | rfl | rfl
  · rw [hlw]
    refine ⟨hsafe (by simp [Instruction.reads]) (by simp [Instruction.writes])
      (by simp [Instruction.Merges]), fun {f f' q'} hdone => ?_⟩
    simp only [execute] at hdone
    split at hdone
    · cases hdone
    · simp only [carryOut] at hdone
      split at hdone
      · rename_i hread
        cases hdone
        replace hread : Flat.ReadMem f _ .word = _ := hread
        unfold Flat.ReadMem at hread
        split at hread
        · cases hread
        · cases hread
          rfl
      · cases hdone
  · rw [hsrav]
    refine ⟨hsafe (by simp [Instruction.reads]) (by simp [Instruction.writes])
      (by simp [Instruction.Merges]), fun {f f' q'} hdone => ?_⟩
    cases hdone
    rfl
  · rw [hsll]
    refine ⟨hsafe (by simp [Instruction.reads]) (by simp [Instruction.writes])
      (by simp [Instruction.Merges]), fun {f f' q'} hdone => ?_⟩
    cases hdone
    rfl

/-- No instruction of the program uses a register that is loaded, or stores. -/
theorem loadProgram_safe {q : Registers} {l : List Event} {t : Registers × Mem}
    (hpath : Path (FlatStep Flat.memory) (q, image loadProgram) l t) :
    Safe Flat.memory t.1 t.2 ∧ t.2 = image loadProgram := by
  have hfetch : ∀ {q : Registers} {f' : Mem} {raw : Word},
      Flat.ReadMem (image loadProgram) (q PCReg) .word = .ok (f', raw) →
        f' = image loadProgram ∧ raw ∈ [0x8c0200c8#32, 7#32, 0#32] := by
    intro q f' raw hread
    unfold Flat.ReadMem at hread
    split at hread
    · cases hread
    · rename_i haligned
      cases hread
      exact ⟨rfl, loadProgram_word (Size.aligned haligned)⟩
  have hmemory : t.2 = image loadProgram := by
    refine hpath.invariant (I := fun t => t.2 = image loadProgram) ?_ rfl
    rintro ⟨q, f⟩ e ⟨q', f'⟩ hf hstep
    replace hf : f = image loadProgram := hf
    subst hf
    show f' = image loadProgram
    unfold FlatStep OneInstruction at hstep
    cases hread : Flat.ReadMem (image loadProgram) (q PCReg) .word with
    | error which =>
      have hread' : Flat.memory.ReadMem (image loadProgram) (q PCReg) .word = .error which := hread
      simp [hread'] at hstep
    | ok res =>
      obtain ⟨f₁, raw⟩ := res
      have hread' : Flat.memory.ReadMem (image loadProgram) (q PCReg) .word = .ok (f₁, raw) := hread
      obtain ⟨rfl, hraw⟩ := hfetch hread
      simp only [hread'] at hstep
      exact (loadProgram_decode hraw q).2 hstep
  refine ⟨fun f' raw hread => ?_, hmemory⟩
  rw [hmemory] at hread
  exact (loadProgram_decode (hfetch hread).2 t.1).1

/-- The word at 200 is in another page than the instruction: two pages are faulted in, and the
first one is looked for again when the process has been away. The load is still on its way at the
second interrupt. -/
theorem runs_as_flat_load : ∃ r' d q f,
    Path (UserStep (Paged.memory 0) (Handled 0) (Away 0 0))
      (startRegisters (AddrSpace.new loadProgram 0), VM.createSpace (Kernel.init true) 0 loadProgram,
        ⟨VM.Flat.empty, Function.update (fun _ => loadProgram) 0 loadProgram⟩)
      [.fault, .interrupt, .fault, .fault, .instruction, .interrupt, .fault, .instruction] (r', d) ∧ r' 2 = 7 ∧
    Path (FlatStep Flat.memory) (startRegisters (AddrSpace.new loadProgram 0), image loadProgram)
      [.instruction, .instruction] (q, f) ∧ Shows q r' ∧ View 0 0 d f := by
  have hexec : (Lib.execute (userStep? 0 0) (startRegisters (AddrSpace.new loadProgram 0),
      VM.createSpace (Kernel.init true) 0 loadProgram,
      ⟨VM.Flat.empty, Function.update (fun _ => loadProgram) 0 loadProgram⟩)
      [.fault, .interrupt, .fault, .fault, .instruction, .interrupt, .fault, .instruction]).any
        (fun t => decide (t.1 2 = 7)) = true := by
    decide +kernel
  obtain ⟨⟨r', d⟩, hd, hp⟩ := (Option.any_eq_true _ _).mp hexec
  have hpath := path_of_execute (fun _ _ _ => userStep_of_userStep?) hd
  have hcreate : FreshStep (Kernel.init true, ⟨VM.Flat.empty, fun _ => loadProgram⟩)
      (.create loadProgram) (VM.createSpace (Kernel.init true) 0 loadProgram,
        ⟨VM.Flat.empty, Function.update (fun _ => loadProgram) 0 loadProgram⟩) :=
    ⟨⟨rfl, .quiet, rfl, rfl⟩, rfl⟩
  have hcalm : Calm (startRegisters (AddrSpace.new loadProgram 0)) := ⟨by decide, by decide⟩
  obtain ⟨q, f, hflat, hshows, hview, -, -⟩ := runs_as_flat ⟨true, _, [], .nil _⟩ rfl hcreate hcalm
    (fun l t ht => (loadProgram_safe ht).1) hpath
  exact ⟨r', d, q, f, hpath, of_decide_eq_true hp, hflat, hshows, hview⟩

end

end Nachos.Machine

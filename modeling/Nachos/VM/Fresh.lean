import Nachos.VM.Coherence
import Nachos.VM.Transparent

/-!
# Fresh memory

What a load returns from an address that its space has not stored to. A page is filled when
it is brought in: from the executable, as far as the file reaches, from swap, or not at all.
So a fresh byte is the byte that the header of the executable puts there, or zero, in every run
in which a fault reads the segments where the header says they are and leaves only zeros beside
them (`ZeroFills`).

The executable of each space is recorded beside the machine, like its stores.
-/

namespace Nachos.VM

/-! ## Programs -/

/-- Where the byte of an address is in the file, if it is one of the segment. -/
def Segment.place (seg : Segment) (addr : Nat) : Option Nat :=
  if seg.virtualAddr ≤ addr ∧ addr < seg.virtualAddr + seg.size then
    some (seg.inFileAddr + (addr - seg.virtualAddr))
  else none

/-- Where the header says the byte of an address of the code or the initialised data is. -/
def Executable.place (exe : Executable) (addr : Nat) : Option Nat :=
  (exe.initData.place addr).or (exe.code.place addr)

/-- The byte of the file at an address of the code or the initialised data. -/
def Executable.programByte (exe : Executable) (addr : Nat) : Option UInt8 :=
  (exe.place addr).bind (exe.contents[·]?)

/-- The byte of an address is where `AddrSpace::AddrSpace` takes it to be, which reads neither
`virtualAddr` nor the data's `inFileAddr`: in a page of the program, and as far behind the start of
the code in the file as it is behind address 0. -/
def Executable.Placed (exe : Executable) (addr : Nat) : Prop :=
  addr / PageSize < divRoundUp exe.size PageSize ∧
    exe.place addr = some (exe.code.inFileAddr + addr)

instance (exe : Executable) (addr : Nat) : Decidable (exe.Placed addr) :=
  inferInstanceAs (Decidable (_ ∧ _))

/-- An address below the size of the program is in one of its pages. -/
theorem div_lt_divRoundUp {addr n : Nat} (h : addr < n) :
    addr / PageSize < divRoundUp n PageSize := by
  show addr / 128 < divRoundUp n 128
  unfold divRoundUp
  split <;> omega

/-- Every byte is there when the data follow the code, in memory from address 0 and in the file.
`coff2noff` makes such files of programs that are linked without a gap. -/
theorem Executable.placed_of_contiguous {exe : Executable} (hcode : exe.code.virtualAddr = 0)
    (hdata : exe.initData.virtualAddr = exe.code.size)
    (hfile : exe.initData.inFileAddr = exe.code.inFileAddr + exe.code.size) {addr : Nat}
    (h : (exe.place addr).isSome = true) : exe.Placed addr := by
  have hsize : exe.size = exe.code.size + exe.initData.size + exe.uninitData.size := rfl
  unfold Placed
  unfold place Segment.place at h ⊢
  rw [hcode, hdata, hfile] at *
  split at h
  · rename_i hin
    rw [if_pos hin]
    refine ⟨div_lt_divRoundUp (by omega), ?_⟩
    rw [Option.some_or]
    congr 1
    omega
  · rename_i hout
    rw [if_neg hout]
    split at h
    · rename_i hin
      rw [if_pos hin]
      refine ⟨div_lt_divRoundUp (by omega), ?_⟩
      rw [Option.none_or, Nat.sub_zero]
    · cases h

/-- Code of 272 bytes and data at 512, with a gap in memory that the file does not have: the data
are in a page of the stack, and behind the end of the file. -/
example : ¬ (⟨⟨0, 40, 272⟩, ⟨512, 312, 16⟩, ⟨528, 328, 0⟩, []⟩ : Executable).Placed 512 := by
  decide

/-- The byte a program expects at an address it has not stored to: that of the file in the
code and initialised data, 0 in the uninitialised data and the stacks. -/
def Executable.freshByte (exe : Executable) (addr : Nat) : UInt8 :=
  (exe.programByte addr).getD 0

/-- The stores of every space, and its executable. -/
structure History where
  stored : Flat
  exe : Nat → Executable

/-- A new space is recorded with its executable. -/
def recordExe (k : Kernel) (exe : Nat → Executable) : Op → Nat → Executable
  | .create new => Function.update exe k.spaceCount new
  | _ => exe

/-- A step of the machine beside its history. -/
def FreshStep (c : Kernel × History) (op : Op) (c' : Kernel × History) : Prop :=
  FlatStep (c.1, c.2.stored) op (c'.1, c'.2.stored) ∧ c'.2.exe = recordExe c.1 c.2.exe op

/-- A fault that brings in a page that is not in swap finds the code and the initialised data where
it reads them, and leaves only zeros outside of what the file has of them. -/
def ZeroFills (c : Kernel × History) (op : Op) : Prop :=
  match op.address, c.1.running with
  | some addr, some (_, s, sp) =>
    tlbEntryOfPage c.1 (addr / PageSize) = none → lookupIPT c.1 s (addr / PageSize) = none →
    (sp.pageTable (addr / PageSize)).location ≠ .SWAP →
      ((findFrame c.1 op.random).toOption.all fun (_, ppn) =>
        (List.range PageSize).all fun j =>
          if ((c.2.exe s).programByte (addr / PageSize * PageSize + j)).isSome then
            decide ((c.2.exe s).Placed (addr / PageSize * PageSize + j))
          else decide (c.1.incoming sp (addr / PageSize) ppn j = 0)) = true
  | _, _ => True

instance (c : Kernel × History) (op : Op) : Decidable (ZeroFills c op) := by
  unfold ZeroFills
  split <;> infer_instance

/-- The steps that fill fresh memory with the program and zeros. -/
def FillsZero (c : Kernel × History) (op : Op) : Prop :=
  LiveAccess (c.1, c.2.stored) op ∧ ZeroFills c op

instance (c : Kernel × History) (op : Op) : Decidable (FillsZero c op) :=
  inferInstanceAs (Decidable (_ ∧ _))

/-- The page is one of the program, not of a stack. -/
def Kernel.InProgram (k : Kernel) (s v : Nat) : Prop :=
  ∃ sp, k.shape s = some sp ∧ v < sp.numNonStackPages

/-- The pages of the programs: one that is in the executable is at its place there, and no
other page is where it cannot be found. -/
structure Programs (k : Kernel) (exe : Nat → Executable) : Prop where
  file : ∀ s sp, k.shape s = some sp → sp.executable = (exe s).contents ∧
    sp.numNonStackPages = divRoundUp (exe s).size PageSize ∧
    sp.numNonStackPages ≤ sp.numPages ∧
    ∀ tid pages, sp.threadTable tid = some pages → ∀ v ∈ pages, sp.numNonStackPages ≤ v
  page : ∀ s v, k.InProgram s v →
    ((k.page s v).location = .EXEC ∧ (k.page s v).dirty = false) ∨
    ((k.page s v).valid = true ∧
      ((k.page s v).location = .MAIN ∨ (k.page s v).location = .SWAP))
  offset : ∀ s v, k.InProgram s v → (k.page s v).dirty = false →
    (k.page s v).byteOffset = (((exe s).code.inFileAddr + v * PageSize : Nat) : Int)
  resident : ∀ f < NumPhysPages, (k.IPT f).valid = true → (k.IPT f).dirty = false →
    (k.page (k.IPT f).PID (k.IPT f).virtualPage).dirty = false

namespace Programs

variable {k k' : Kernel} {exe : Nat → Executable}

theorem init (useFIFO : Bool) (exe : Nat → Executable) : Programs (Kernel.init useFIFO) exe where
  file s sp hs := by cases hs
  page s v := by rintro ⟨sp, hs, -⟩; cases hs
  offset s v := by rintro ⟨sp, hs, -⟩; cases hs
  resident f _ hv := by cases hv

theorem inProgram_of_shape (h : k'.shape = k.shape) (s v : Nat) :
    k'.InProgram s v ↔ k.InProgram s v := by
  unfold Kernel.InProgram
  rw [h]

theorem hasPage (h : Programs k exe) {s v : Nat} (hv : k.InProgram s v) : k.HasPage s v := by
  obtain ⟨sp, hs, hlt⟩ := hv
  obtain ⟨-, -, hle, -⟩ := h.file s sp hs
  obtain ⟨sp₀, hs₀, heq⟩ := Option.map_eq_some_iff.mp hs
  subst heq
  simp only [Kernel.HasPage, Kernel.numPages, hs₀]
  exact Nat.lt_of_lt_of_le hlt hle

/-- The spaces and their pages stay, and no dirty frame became clean. -/
theorem same (h : Programs k exe) (hshape : k'.shape = k.shape) (hpage : k'.page = k.page)
    (hIPT : ∀ f < NumPhysPages, (k'.IPT f).valid = true → (k'.IPT f).dirty = false →
      (k.IPT f).valid = true ∧ (k.IPT f).dirty = false ∧ (k'.IPT f).PID = (k.IPT f).PID ∧
        (k'.IPT f).virtualPage = (k.IPT f).virtualPage) : Programs k' exe where
  file s sp hs := h.file s sp (by rw [← hshape]; exact hs)
  page s v hv := by
    rw [hpage]
    exact h.page s v ((inProgram_of_shape hshape s v).mp hv)
  offset s v hv := by
    rw [hpage]
    exact h.offset s v ((inProgram_of_shape hshape s v).mp hv)
  resident f hf hv hd := by
    obtain ⟨hv₀, hd₀, hPID, hvp⟩ := hIPT f hf hv hd
    rw [hpage, hPID, hvp]
    exact h.resident f hf hv₀ hd₀

theorem tlbOnly (h : Programs k exe) (ht : TLBOnly k k') : Programs k' exe :=
  h.same ht.shape ht.page fun f _ hv hd => by
    rw [ht.valid] at hv
    refine ⟨hv, ?_, ht.PID f, ht.virtualPage f⟩
    by_contra hdirty
    rw [ht.dirty f (by simpa using hdirty)] at hd
    cases hd

/-- An eviction: a clean page goes back to where it came from. -/
theorem evicted (h : Programs k exe) (hf : FrameInv none k) {ppn : Nat}
    (hlt : ppn < NumPhysPages) (hvalid : (k.IPT ppn).valid = true) (he : Evicted k ppn k') :
    Programs k' exe := by
  have hent := hf.entry ppn hlt hvalid
  refine ⟨fun s sp hs => h.file s sp (by rw [← he.shape]; exact hs), fun s v hv => ?_,
    fun s v hv => ?_, fun f hf' hv hd => ?_⟩
  · rw [inProgram_of_shape he.shape] at hv
    by_cases hvic : s = (k.IPT ppn).PID ∧ v = (k.IPT ppn).virtualPage
    · obtain ⟨rfl, rfl⟩ := hvic
      cases he.wentTo with
      | swap slot m _ _ _ _ hpage =>
        rw [hpage]
        exact .inr ⟨hent.2.1, .inr rfl⟩
      | exec hclean _ _ hpage =>
        rw [hpage]
        exact .inl ⟨rfl, h.resident ppn hlt hvalid hclean⟩
    · rw [he.other s v hvic]
      exact h.page s v hv
  · rw [inProgram_of_shape he.shape] at hv
    by_cases hvic : s = (k.IPT ppn).PID ∧ v = (k.IPT ppn).virtualPage
    · obtain ⟨rfl, rfl⟩ := hvic
      cases he.wentTo with
      | swap slot m _ _ _ _ hpage =>
        rw [hpage]
        intro hd
        cases hd
      | exec _ _ _ hpage =>
        rw [hpage]
        exact h.offset _ _ hv
    · rw [he.other s v hvic]
      exact h.offset s v hv
  · rw [he.IPT] at hv hd ⊢
    split at hv
    · cases hv
    · rename_i hne
      rw [if_neg hne] at hd ⊢
      rw [he.other]
      · exact h.resident f hf' hv hd
      · rintro ⟨hPID, hvp⟩
        exact hne (hf.frame_unique hf' hlt hv hvalid hPID hvp)

theorem findFrame (h : Programs k exe) (hf : FrameInv none k) {r ppn : Nat}
    (hfind : VM.findFrame k r = .ok (k', ppn)) : Programs k' exe := by
  rcases findFrame_spec hfind with ⟨m, -, rfl⟩ | ⟨-, hfull⟩
  · exact h.same rfl rfl fun f _ hv hd => ⟨hv, hd, rfl, rfl⟩
  · obtain ⟨-, hlt, hv, he⟩ := handleMemoryFull_spec hfull
    have ht := tlbOnly_dropFrame k ppn
    exact (h.tlbOnly ht).evicted (hf.tlbOnly ht) hlt (by rw [ht.valid]; exact hv)
      (he (hf.entry ppn hlt hv).1)

theorem recorded {s v ppn : Nat} (h : Programs k exe)
    (habsent : ∀ f < NumPhysPages, (k.IPT f).valid = true → (k.IPT f).PID = s →
      (k.IPT f).virtualPage ≠ v) (hvpn : (k.page s v).virtualPage = v)
    (hr : Recorded k s v ppn k') : Programs k' exe := by
  refine ⟨fun t sp hs => h.file t sp (by rw [← hr.shape]; exact hs), fun t w hw => ?_,
    fun t w hw => ?_, fun f hf hv hd => ?_⟩
  · rw [inProgram_of_shape hr.shape] at hw
    rw [hr.page]
    split
    · exact .inr ⟨rfl, .inl rfl⟩
    · exact h.page t w hw
  · rw [inProgram_of_shape hr.shape] at hw
    rw [hr.page]
    split
    · rename_i heq
      obtain ⟨rfl, rfl⟩ := heq
      exact h.offset t w hw
    · exact h.offset t w hw
  · rw [hr.IPT] at hv hd ⊢
    by_cases hfp : f = ppn
    · rw [if_pos hfp] at hd ⊢
      rw [hr.page, if_pos ⟨rfl, hvpn⟩]
      exact hd
    · rw [if_neg hfp] at hv hd ⊢
      rw [hr.page, if_neg]
      · exact h.resident f hf hv hd
      · rintro ⟨hPID, hvp⟩
        exact habsent f hf hv hPID hvp

theorem missed (h : Programs k exe) (hsound : Sound k) {s addr r : Nat}
    (hm : handleTLBMiss k s addr r = .ok k') : Programs k' exe := by
  rcases handleTLBMiss_cases hsound.spaces hsound.frames hm with
    ⟨ppn, -, rfl⟩ | ⟨k₁, ppn, sp', k₂, k₃, -, hin, rfl⟩
  · exact h.tlbOnly (tlbOnly_populate k ppn)
  · have hk₂ := loadPage_same hin.load
    have hpage₂ : k₂.page = k₁.page := by rw [hk₂]; rfl
    have hIPT₂ : k₂.IPT = k₁.IPT := by rw [hk₂]
    have h₂ : Programs k₂ exe := (h.findFrame hsound.frames hin.found).same
      (by rw [hk₂]; rfl) hpage₂ fun f _ hv hd => by
        rw [hIPT₂] at hv hd ⊢
        exact ⟨hv, hd, rfl, rfl⟩
    have hp : k.HasPage s (addr / PageSize) := (hin.foundLayout.hasPage s _).mp hin.page
    refine (h₂.recorded ?_ ?_ hin.recorded).tlbOnly (tlbOnly_populate k₃ ppn)
    · rw [hIPT₂]
      exact hin.absent
    · rw [hpage₂, hin.foundPage]
      exact hsound.spaces.vpn s _ hp

theorem freed {s v : Nat} (h : Programs k exe) (hf : FrameInv none k) (hnot : ¬ k.InProgram s v)
    (hfree : PageFreed k s v k') : Programs k' exe := by
  have hpage : ∀ t w, k.InProgram t w → k'.page t w = k.page t w := by
    intro t w hw
    refine hfree.other t w ?_
    rintro ⟨rfl, rfl⟩
    exact hnot hw
  refine ⟨fun t sp hs => h.file t sp (by rw [← hfree.shape]; exact hs), fun t w hw => ?_,
    fun t w hw => ?_, fun f hlt hv hd => ?_⟩
  · rw [inProgram_of_shape hfree.shape] at hw
    rw [hpage t w hw]
    exact h.page t w hw
  · rw [inProgram_of_shape hfree.shape] at hw
    rw [hpage t w hw]
    exact h.offset t w hw
  · by_cases hres : (k.page s v).valid = true ∧ (k.page s v).location = .MAIN
    · have hIPT := (hfree.main hres.1 hres.2).2.1 f
      rw [hIPT] at hv hd ⊢
      split at hv
      · cases hv
      · rename_i hne
        rw [if_neg hne] at hd ⊢
        rw [hfree.other]
        · exact h.resident f hlt hv hd
        · rintro ⟨hPID, hvp⟩
          have hpp := (hf.entry f hlt hv).2.2.2
          rw [hPID, hvp] at hpp
          rw [hpp] at hne
          exact hne rfl
    · rw [(hfree.notMain hres).2.1] at hv hd ⊢
      rw [hfree.other]
      · exact h.resident f hlt hv hd
      · rintro ⟨hPID, hvp⟩
        have hent := hf.entry f hlt hv
        rw [hPID, hvp] at hent
        exact hres ⟨hent.2.1, hent.2.2.1⟩

theorem exited (h : Programs k exe) (hsound : Sound k) {tid s : Nat} {sp : AddrSpace}
    {pages : List Nat} (hs : k.spaces s = some sp) (hpages : sp.threadTable tid = some pages) :
    Programs (clearStack k s pages) exe := by
  have hrange := hsound.stackPages hs hpages
  obtain ⟨-, -, -, hstack⟩ := h.file s _ (shape_some hs)
  have hnot : ∀ v ∈ pages, ¬ k.InProgram s v := by
    rintro v hv ⟨sp', hs', hlt⟩
    rw [shape_some hs] at hs'
    cases hs'
    exact absurd (hstack tid pages hpages v hv) (Nat.not_le.mpr hlt)
  have hloop := exitLoop_rule (I := fun k₁ => Programs k₁ exe ∧ FrameInv none k₁) (pages.take 8)
    (fun v hv => hrange v (List.mem_of_mem_take hv))
    (fun k₁ v hv hlay hp hk₁ => ⟨hk₁.1.freed hk₁.2
      (fun hin => hnot v (List.mem_of_mem_take hv) ((inProgram_of_shape hlay.shape s v).mp hin))
      (exitPage_spec hp), hk₁.2.freed hp (exitPage_spec hp)⟩) ⟨h, hsound.frames⟩
  exact hloop.2.1.tlbOnly (tlbOnly_saveState _)

/-- The valid IPT entries are old ones, and no dirty one became clean. -/
def IPTKept (k k' : Kernel) : Prop :=
  ∀ f, (k'.IPT f).valid = true → (k'.IPT f).dirty = false → (k.IPT f).valid = true ∧
    (k.IPT f).dirty = false ∧ (k'.IPT f).PID = (k.IPT f).PID ∧
    (k'.IPT f).virtualPage = (k.IPT f).virtualPage

theorem iptKept_freed {k₁ : Kernel} {s v : Nat} (h : IPTKept k k₁) (hfree : PageFreed k₁ s v k') :
    IPTKept k k' := by
  intro f hv hd
  by_cases hres : (k₁.page s v).valid = true ∧ (k₁.page s v).location = .MAIN
  · have hIPT := (hfree.main hres.1 hres.2).2.1 f
    rw [hIPT] at hv hd ⊢
    split at hv
    · cases hv
    · rename_i hne
      rw [if_neg hne] at hd ⊢
      exact h f hv hd
  · rw [(hfree.notMain hres).2.1] at hv hd ⊢
    exact h f hv hd

theorem iptKept_tlbOnly {k₁ : Kernel} (h : IPTKept k k₁) (ht : TLBOnly k₁ k') : IPTKept k k' := by
  intro f hv hd
  rw [ht.valid] at hv
  have hd₁ : (k₁.IPT f).dirty = false := by
    by_contra hdirty
    rw [ht.dirty f (by simpa using hdirty)] at hd
    cases hd
  rw [ht.PID, ht.virtualPage]
  exact h f hv hd₁

/-- The other spaces when a space is deleted. -/
theorem deleteSpace_others (k : Kernel) (s : Nat) (junk : Nat → Int) :
    IPTKept k (deleteSpace k s junk) ∧ (deleteSpace k s junk).mainMemory = k.mainMemory ∧
      (deleteSpace k s junk).swapFile = k.swapFile ∧
      ∀ t v, t ≠ s → (deleteSpace k s junk).page t v = k.page t v := by
  obtain ⟨-, hsame, -, hIPT, hmem, hfile⟩ := deleteLoop_rule
    (I := fun k₁ => IPTKept k k₁ ∧ k₁.mainMemory = k.mainMemory ∧ k₁.swapFile = k.swapFile) s junk
    (fun n hn hlay hv hk₁ => by
      have hfree := deletePage_spec junk ((hlay.hasPage s n).mpr hn) hv
      refine ⟨iptKept_freed hk₁.1 hfree, ?_, ?_⟩
      · rw [hfree.rest]
        exact hk₁.2.1
      · rw [hfree.rest]
        exact hk₁.2.2)
    ⟨fun f hv hd => ⟨hv, hd, rfl, rfl⟩, rfl, rfl⟩ le_rfl
  have ht := tlbOnly_saveState (deleteLoop k s junk (k.numPages s))
  have hkept := iptKept_tlbOnly hIPT ht
  refine ⟨hkept, ht.mainMemory.trans hmem, ht.swapFile.trans hfile, fun t v hts => ?_⟩
  have hpage : (deleteSpace k s junk).page t v =
      (saveState (deleteLoop k s junk (k.numPages s))).page t v := by
    simp [Kernel.page, deleteSpace, deleteLoop, Function.update_of_ne hts]
  rw [hpage, ht.page]
  exact hsame t v fun heq => hts heq.1

theorem deleted (h : Programs k exe) (hsound : Sound k) (s : Nat) (junk : Nat → Int) :
    Programs (deleteSpace k s junk) exe := by
  obtain ⟨hIPT, -, -, hpage⟩ := deleteSpace_others k s junk
  obtain ⟨hlay, -⟩ := deleteLoop_rule (I := fun _ => True) (k := k) s junk
    (fun _ _ _ _ _ => trivial) trivial le_rfl
  have hlay := hlay.trans (tlbOnly_saveState _).sameLayout
  have hshape : ∀ t sp, (deleteSpace k s junk).shape t = some sp → t ≠ s ∧ k.shape t = some sp := by
    intro t sp ht
    by_cases hts : t = s
    · simp [Kernel.shape, deleteSpace, hts] at ht
    · refine ⟨hts, ?_⟩
      rw [← deleteSpace_shape 0 hlay hts]
      exact ht
  have hprog : ∀ t v, (deleteSpace k s junk).InProgram t v → t ≠ s ∧ k.InProgram t v := by
    rintro t v ⟨sp, hsp, hlt⟩
    obtain ⟨hts, hsp'⟩ := hshape t sp hsp
    exact ⟨hts, sp, hsp', hlt⟩
  refine ⟨fun t sp ht => h.file t sp (hshape t sp ht).2, fun t v hv => ?_, fun t v hv => ?_,
    fun f hf hv hd => ?_⟩
  · obtain ⟨hts, hv'⟩ := hprog t v hv
    rw [hpage t v hts]
    exact h.page t v hv'
  · obtain ⟨hts, hv'⟩ := hprog t v hv
    rw [hpage t v hts]
    exact h.offset t v hv'
  · obtain ⟨hv₀, hd₀, hPID, hvp⟩ := hIPT f hv hd
    -- a frame that is still in use is one of another space
    have hent := (hsound.deleted s junk).frames.entry f hf hv
    have hts : (k.IPT f).PID ≠ s := by
      intro heq
      have hhas := hent.1
      rw [hPID, heq] at hhas
      simp [Kernel.HasPage, Kernel.numPages, deleteSpace] at hhas
    rw [hPID, hvp, hpage _ _ hts]
    exact h.resident f hf hv₀ hd₀

theorem created (h : Programs k exe) (hsound : Sound k) (tid : Nat) (new : Executable) :
    Programs (createSpace k tid new) (Function.update exe k.spaceCount new) := by
  have hfresh := hsound.spaces.fresh k.spaceCount le_rfl
  have hother : ∀ t, t ≠ k.spaceCount → (createSpace k tid new).shape t = k.shape t := by
    intro t ht
    simp [Kernel.shape, createSpace, Kernel.setSpace, Function.update_of_ne ht]
  have hpage : ∀ t v, t ≠ k.spaceCount → (createSpace k tid new).page t v = k.page t v := by
    intro t v ht
    simp [Kernel.page, createSpace, Kernel.setSpace, Function.update_of_ne ht]
  have hself : (createSpace k tid new).spaces k.spaceCount = some (AddrSpace.new new tid) :=
    Function.update_self _ _ _
  have hpageSelf : ∀ v, (createSpace k tid new).page k.spaceCount v =
      (AddrSpace.new new tid).pageTable v := by
    intro v
    rw [Kernel.page, hself]
  have hprog : ∀ t v, t ≠ k.spaceCount → (createSpace k tid new).InProgram t v →
      k.InProgram t v := by
    rintro t v ht ⟨sp, hsp, hlt⟩
    exact ⟨sp, (hother t ht).symm.trans hsp, hlt⟩
  have hprogSelf : ∀ v, (createSpace k tid new).InProgram k.spaceCount v →
      v < divRoundUp new.size PageSize := by
    rintro v ⟨sp, hsp, hlt⟩
    rw [shape_some hself] at hsp
    cases hsp
    exact hlt
  refine ⟨fun t sp ht => ?_, fun t v hv => ?_, fun t v hv hd => ?_, fun f hf hv hd => ?_⟩
  · by_cases hts : t = k.spaceCount
    · subst hts
      rw [shape_some hself] at ht
      cases ht
      rw [Function.update_self]
      refine ⟨rfl, rfl, Nat.le_add_right _ _, fun u pages hpages v hv => ?_⟩
      simp only [AddrSpace.new, Function.update_apply] at hpages
      split at hpages
      · cases hpages
        exact (List.mem_range'_1.mp hv).1
      · cases hpages
    · rw [Function.update_of_ne hts]
      exact h.file t sp ((hother t hts).symm.trans ht)
  · by_cases hts : t = k.spaceCount
    · subst hts
      have hlt := hprogSelf v hv
      rw [hpageSelf]
      exact .inl ⟨by simp only [AddrSpace.new, if_pos hlt], rfl⟩
    · rw [hpage t v hts]
      exact h.page t v (hprog t v hts hv)
  · by_cases hts : t = k.spaceCount
    · subst hts
      have hlt := hprogSelf v hv
      rw [hpageSelf, Function.update_self]
      simp only [AddrSpace.new, if_pos hlt]
      push_cast
      rfl
    · rw [hpage t v hts] at hd ⊢
      rw [Function.update_of_ne hts]
      exact h.offset t v (hprog t v hts hv) hd
  · have hent := hsound.frames.entry f hf hv
    have hts : (k.IPT f).PID ≠ k.spaceCount := by
      intro heq
      have hhas := hent.1
      rw [heq] at hhas
      simp [Kernel.HasPage, Kernel.numPages, hfresh] at hhas
    exact (congrArg (·.dirty) (hpage _ _ hts)).trans (h.resident f hf hv hd)

theorem forked (h : Programs k exe) (hsound : Sound k) {tid s : Nat} {sp : AddrSpace}
    (hs : k.spaces s = some sp) (junk : Nat → Int) :
    Programs (k.setSpace s (sp.fork tid junk)) exe := by
  have he := extended_fork hs tid junk
  have hshape : ∀ t, t ≠ s → (k.setSpace s (sp.fork tid junk)).shape t = k.shape t := by
    intro t ht
    simp [Kernel.shape, Kernel.setSpace, Function.update_of_ne ht]
  have hself : (k.setSpace s (sp.fork tid junk)).spaces s = some (sp.fork tid junk) :=
    Function.update_self _ _ _
  have hprog : ∀ t v, (k.setSpace s (sp.fork tid junk)).InProgram t v → k.InProgram t v := by
    rintro t v ⟨sp', hsp', hlt⟩
    by_cases hts : t = s
    · subst hts
      rw [shape_some hself] at hsp'
      cases hsp'
      exact ⟨_, shape_some hs, hlt⟩
    · exact ⟨sp', (hshape t hts).symm.trans hsp', hlt⟩
  have hpage : ∀ t v, k.HasPage t v → (k.setSpace s (sp.fork tid junk)).page t v = k.page t v :=
    fun t v hp => (he.hasPage hp).2
  refine ⟨fun t sp' ht => ?_, fun t v hv => ?_, fun t v hv hd => ?_, fun f hf hv hd => ?_⟩
  · by_cases hts : t = s
    · subst hts
      rw [shape_some hself] at ht
      cases ht
      obtain ⟨hfile, hnum, hle, hstack⟩ := h.file t _ (shape_some hs)
      refine ⟨hfile, hnum, Nat.le_trans hle (Nat.le_add_right _ _), fun u pages hpages v hv => ?_⟩
      simp only [AddrSpace.fork, Function.update_apply] at hpages
      split at hpages
      · cases hpages
        exact Nat.le_trans hle (List.mem_range'_1.mp hv).1
      · exact hstack u pages hpages v hv
    · exact h.file t sp' ((hshape t hts).symm.trans ht)
  · rw [hpage t v (h.hasPage (hprog t v hv))]
    exact h.page t v (hprog t v hv)
  · rw [hpage t v (h.hasPage (hprog t v hv))] at hd ⊢
    exact h.offset t v (hprog t v hv) hd
  · have hent := hsound.frames.entry f hf hv
    exact (congrArg (·.dirty) (hpage _ _ hent.1)).trans (h.resident f hf hv hd)

end Programs

/-- The other pages when a thread exits. -/
theorem clearStack_others {k : Kernel} {s : Nat} {pages : List Nat}
    (hpages : ∀ v ∈ pages, k.HasPage s v) :
    (∀ t v, ¬ (t = s ∧ v ∈ pages) → (clearStack k s pages).page t v = k.page t v) ∧
      (clearStack k s pages).mainMemory = k.mainMemory ∧
      (clearStack k s pages).swapFile = k.swapFile := by
  obtain ⟨-, hpage, hmem, hfile⟩ := exitLoop_rule (I := fun k₁ =>
      (∀ t v, ¬ (t = s ∧ v ∈ pages) → k₁.page t v = k.page t v) ∧
      k₁.mainMemory = k.mainMemory ∧ k₁.swapFile = k.swapFile) (pages.take 8)
    (fun v hv => hpages v (List.mem_of_mem_take hv))
    (fun k₁ v hv _ hp hk₁ => by
      have hfree := exitPage_spec hp
      refine ⟨fun t w hne => ?_, ?_, ?_⟩
      · rw [hfree.other t w fun heq => hne ⟨heq.1, heq.2 ▸ List.mem_of_mem_take hv⟩]
        exact hk₁.1 t w hne
      · rw [hfree.rest]
        exact hk₁.2.1
      · rw [hfree.rest]
        exact hk₁.2.2)
    ⟨fun _ _ _ => rfl, rfl, rfl⟩
  have ht := tlbOnly_saveState ((pages.take 8).foldl (exitPage s) k)
  refine ⟨fun t v hne => ?_, ht.mainMemory.trans hmem, ht.swapFile.trans hfile⟩
  rw [clearStack, ht.page]
  exact hpage t v hne

/-! ## The bytes of a page -/

/-- Where the page is kept, in memory or in swap, the byte is `b`. -/
def Shows (k : Kernel) (s addr : Nat) (b : UInt8) : Prop :=
  (k.page s (addr / PageSize)).valid = true →
    ((k.page s (addr / PageSize)).location = .MAIN →
      k.mainMemory ((k.page s (addr / PageSize)).physicalPage.toNat * PageSize + addr % PageSize)
        = b) ∧
    ((k.page s (addr / PageSize)).location = .SWAP →
      k.swapFile ((k.page s (addr / PageSize)).byteOffset.toNat + addr % PageSize) = b)

namespace Shows

variable {k k' : Kernel} {s addr : Nat} {b : UInt8}

theorem congr (h : Shows k s addr b)
    (hpage : k'.page s (addr / PageSize) = k.page s (addr / PageSize))
    (hmem : k'.mainMemory = k.mainMemory) (hfile : k'.swapFile = k.swapFile) :
    Shows k' s addr b := by
  unfold Shows at h ⊢
  rw [hpage, hmem, hfile]
  exact h

theorem tlbOnly (h : Shows k s addr b) (ht : TLBOnly k k') : Shows k' s addr b :=
  h.congr (by rw [ht.page]) ht.mainMemory ht.swapFile

/-- Finding a frame, whatever it evicts. -/
theorem findFrame (h : Shows k s addr b) (hf : FrameInv none k) (hw : SwapInv k)
    (hp : k.HasPage s (addr / PageSize)) {r ppn : Nat}
    (hfind : VM.findFrame k r = .ok (k', ppn)) : Shows k' s addr b := by
  have hmem := (hf.findFrame_keeps hfind).2.2
  rcases findFrame_spec hfind with ⟨m, -, rfl⟩ | ⟨-, hfull⟩
  · exact h
  obtain ⟨-, hlt, hv, he⟩ := handleMemoryFull_spec hfull
  have hent := hf.entry ppn hlt hv
  have he := he hent.1
  have hdrop := tlbOnly_dropFrame k ppn
  by_cases hvic : s = (k.IPT ppn).PID ∧ addr / PageSize = (k.IPT ppn).virtualPage
  · -- the victim: its bytes are in the slot it was written to, if it was
    rw [← hvic.1, ← hvic.2] at hent
    cases he.wentTo with
    | exec _ _ _ hpage =>
      rw [hdrop.PID, hdrop.virtualPage, ← hvic.1, ← hvic.2] at hpage
      rw [Shows, hpage]
      exact fun _ => ⟨fun hloc => (by cases hloc), fun hloc => (by cases hloc)⟩
    | swap slot m _ _ _ hfile hpage =>
      rw [hdrop.PID, hdrop.virtualPage, ← hvic.1, ← hvic.2, hdrop.page] at hpage
      rw [Shows, hpage, hfile]
      refine fun _ => ⟨fun hloc => (by cases hloc), fun _ => ?_⟩
      have hin : slot * PageSize ≤ slot * PageSize + addr % PageSize ∧
          slot * PageSize + addr % PageSize < slot * PageSize + PageSize :=
        ⟨Nat.le_add_right _ _, Nat.add_lt_add_left (Nat.mod_lt _ (by decide)) _⟩
      have hb := (h hent.2.1).1 hent.2.2.1
      rw [hent.2.2.2, Int.toNat_natCast] at hb
      simp only [Int.toNat_natCast, blit, if_pos hin, Nat.add_sub_cancel_left]
      rw [hdrop.mainMemory, ← frame_address]
      exact hb
  · have hpage : k'.page s (addr / PageSize) = k.page s (addr / PageSize) := by
      rw [he.other _ _ (by rw [hdrop.PID, hdrop.virtualPage]; exact hvic), hdrop.page]
    rw [Shows, hpage, hmem]
    intro hvalid
    refine ⟨(h hvalid).1, fun hloc => ?_⟩
    obtain ⟨slot, -, hh, -⟩ := hw.slot s _ ⟨hp, hvalid, hloc⟩
    have hb := (h hvalid).2 hloc
    rw [hh.2, Int.toNat_natCast] at hb ⊢
    rw [(hw.findFrame_keeps hf hfind hh).2 _ (Nat.mod_lt _ (by decide))]
    exact hb

/-- Bringing in another page. -/
theorem faultedIn {t v r ppn : Nat} {k₁ k₂ k₃ : Kernel} {sp : AddrSpace}
    (hin : FaultedIn k t v r k₁ ppn sp k₂ k₃) (hp : k₁.HasPage s (addr / PageSize))
    (hne : ¬ (s = t ∧ addr / PageSize = v)) (h : Shows k₁ s addr b) : Shows k₃ s addr b := by
  have hk₂ := loadPage_same hin.load
  have hpage₂ : k₂.page = k₁.page := by rw [hk₂]; rfl
  have hfile : k₃.swapFile = k₁.swapFile := by rw [hin.recorded.rest, hk₂]
  have hmem : k₃.mainMemory = k₂.mainMemory := by rw [hin.recorded.rest]
  have hpage₃ := hin.recorded.page s (addr / PageSize)
  rw [hpage₂, if_neg hne] at hpage₃
  rw [Shows, hpage₃, hmem, hfile]
  intro hvalid
  refine ⟨fun hm => ?_, (h hvalid).2⟩
  obtain ⟨g, hg, hpp, hgv, -, -⟩ := hin.foundInv.pageFrame hp hvalid hm
  have hgne : g ≠ ppn := by
    rintro rfl
    rw [(hin.foundInv.taken g rfl).2.2] at hgv
    cases hgv
  have hb := (h hvalid).1 hm
  rw [hpp, Int.toNat_natCast] at hb ⊢
  rw [loadPage_outside hin.space hin.load]
  · exact hb
  · have hmod : addr % 128 < 128 := Nat.mod_lt _ (by decide)
    change ¬ (128 * ppn ≤ g * 128 + addr % 128 ∧ g * 128 + addr % 128 < 128 * ppn + 128)
    omega

end Shows

/-! ## Fresh bytes -/

/-- The machine shows the byte of the program wherever its space has not stored. -/
structure Fresh (k : Kernel) (g : History) : Prop where
  transparent : Transparent k g.stored
  programs : Programs k g.exe
  bytes : ∀ s addr b, g.stored s addr = none → k.HasPage s (addr / PageSize) →
    exitedStack k s (addr / PageSize) = false → (g.exe s).freshByte addr = b →
    Shows k s addr b

/-- A byte that is where the constructor takes it to be is in a page of the program. -/
theorem Programs.inProgram_of_placed {k : Kernel} {exe : Nat → Executable} (h : Programs k exe)
    {s addr : Nat} (hp : k.HasPage s (addr / PageSize)) (hplaced : (exe s).Placed addr) :
    k.InProgram s (addr / PageSize) := by
  cases hs : k.spaces s with
  | none => simp [Kernel.HasPage, Kernel.numPages, hs] at hp
  | some sp =>
    obtain ⟨-, hnum, -⟩ := h.file s _ (shape_some hs)
    refine ⟨_, shape_some hs, ?_⟩
    rw [hnum]
    exact hplaced.1

namespace Fresh

variable {k k' : Kernel} {g : History}

/-- The bytes of the page that a fault brings in. -/
theorem broughtIn (h : Fresh k g) {s addr r ppn : Nat} {k₁ k₂ k₃ : Kernel} {sp : AddrSpace}
    (hin : FaultedIn k s (addr / PageSize) r k₁ ppn sp k₂ k₃) {a : Nat} {b : UInt8}
    (hpa : a / PageSize = addr / PageSize) (hlive : exitedStack k s (addr / PageSize) = false)
    (hshows : Shows k₁ s a b) (hfresh : (g.exe s).freshByte a = b)
    (hplaced : (sp.pageTable (addr / PageSize)).location ≠ .SWAP →
      ((g.exe s).programByte a).isSome = true → (g.exe s).Placed a)
    (hzero : (sp.pageTable (addr / PageSize)).location ≠ .SWAP →
      (g.exe s).programByte a = none →
        k₁.incoming sp (addr / PageSize) ppn (a % PageSize) = 0) :
    Shows k₃ s a b := by
  have hk₂ := loadPage_same hin.load
  have hpage₂ : k₂.page = k₁.page := by rw [hk₂]; rfl
  have hmem : k₃.mainMemory = k₂.mainMemory := by rw [hin.recorded.rest]
  have hsp : k₁.page s (addr / PageSize) = sp.pageTable (addr / PageSize) := by
    simp [Kernel.page, hin.space]
  have hp : k.HasPage s (addr / PageSize) := (hin.foundLayout.hasPage s _).mp hin.page
  have hpage₃ := hin.recorded.page s (a / PageSize)
  rw [if_pos ⟨rfl, hpa⟩] at hpage₃
  rw [Shows, hpage₃, hmem]
  refine fun _ => ⟨fun _ => ?_, fun hloc => (by cases hloc)⟩
  rw [Int.toNat_natCast, frame_address, loadPage_byte (Nat.mod_lt _ (by decide)) hin.load]
  by_cases hswap : (sp.pageTable (addr / PageSize)).location = .SWAP
  · -- the page comes from its slot
    have hvalid : (sp.pageTable (addr / PageSize)).valid = true := by
      by_contra hnot
      refine h.transparent.noStale s _ hp hlive ⟨?_, ?_⟩ <;> rw [← hin.foundPage, hsp]
      · simpa using hnot
      · exact hswap
    have hb := (hshows (by rw [hpa, hsp]; exact hvalid)).2 (by rw [hpa, hsp]; exact hswap)
    rw [hpa, hsp] at hb
    simp only [Kernel.incoming, hswap]
    exact hb
  · cases hbyte : (g.exe s).programByte a with
    | some byte =>
      -- a byte of the program: the page is in the executable, at its place
      have hplace := hplaced hswap (by rw [hbyte]; rfl)
      have hpk : k.HasPage s (a / PageSize) := hpa ▸ hp
      have hprog := h.programs.inProgram_of_placed hpk hplace
      rw [hpa] at hprog
      rw [hin.foundPage] at hsp
      have hexec : (k.page s (addr / PageSize)).location = .EXEC ∧
          (k.page s (addr / PageSize)).dirty = false := by
        rcases h.programs.page s _ hprog with hexec | ⟨hvalid, hmain | hloc⟩
        · exact hexec
        · obtain ⟨f, hf, hfv, hfs, hfp⟩ := hin.foundInv.page s _ hin.page
            (by rw [hin.foundPage]; exact hvalid) (by rw [hin.foundPage]; exact hmain)
          exact absurd hfp (hin.absent f hf hfv hfs)
        · rw [hsp] at hloc
          exact absurd hloc hswap
      have hoff := h.programs.offset s _ hprog hexec.2
      have hfile : sp.executable = (g.exe s).contents := by
        have hshape : k.shape s = some { sp with pageTable := fun _ => {} } := by
          rw [← hin.foundLayout.shape]
          exact shape_some hin.space
        exact (h.programs.file s _ hshape).1
      rw [hsp] at hexec hoff
      simp only [Kernel.incoming, hexec.1, hoff, Int.toNat_natCast, hfile]
      have haddr : (g.exe s).code.inFileAddr + addr / PageSize * PageSize + a % PageSize =
          (g.exe s).code.inFileAddr + a := by
        have := Nat.div_add_mod a PageSize
        rw [← hpa]
        rw [Nat.mul_comm] at this
        omega
      have hread : (g.exe s).contents[(g.exe s).code.inFileAddr + a]? = some byte := by
        rw [Executable.programByte, hplace.2, Option.bind_some] at hbyte
        exact hbyte
      rw [haddr, hread, ← hfresh, Executable.freshByte, hbyte]
      rfl
    | none =>
      rw [hzero hswap hbyte, ← hfresh]
      simp [Executable.freshByte, hbyte]

theorem init (useFIFO : Bool) (exe : Nat → Executable) :
    Fresh (Kernel.init useFIFO) ⟨Flat.empty, exe⟩ where
  transparent := Transparent.init useFIFO
  programs := Programs.init useFIFO exe
  bytes s addr b _ hp := by simp [Kernel.HasPage, Kernel.numPages, Kernel.init] at hp

/-- A TLB miss in such a step. -/
theorem missed (h : Fresh k g) {op : Op} {tid s addr : Nat} {sp : AddrSpace}
    (hop : op.address = some addr) (hrun : k.running = some (tid, s, sp))
    (hmiss : tlbEntryOfPage k (addr / PageSize) = none) (hfills : FillsZero (k, g) op)
    (hm : handleTLBMiss k s addr op.random = .ok k') : Fresh k' g := by
  have hlive : exitedStack k s (addr / PageSize) = false := by
    simpa [LiveAccess, hop, hrun] using hfills.1
  have hlay := handleTLBMiss_sameLayout h.transparent.sound.spaces h.transparent.sound.frames hm
  refine ⟨h.transparent.missed hrun hmiss hlive hm, h.programs.missed h.transparent.sound hm,
    fun t a b hstored hp hex hfresh => ?_⟩
  rw [hlay.exitedStack] at hex
  rw [hlay.hasPage] at hp
  have hold := h.bytes t a b hstored hp hex hfresh
  rcases handleTLBMiss_cases h.transparent.sound.spaces h.transparent.sound.frames hm with
    ⟨ppn, -, rfl⟩ | ⟨k₁, ppn, sp', k₂, k₃, hl, hin, rfl⟩
  · exact hold.tlbOnly (tlbOnly_populate k ppn)
  · refine Shows.tlbOnly ?_ (tlbOnly_populate k₃ ppn)
    have h₁ := hold.findFrame h.transparent.sound.frames h.transparent.swap hp hin.found
    by_cases hself : t = s ∧ a / PageSize = addr / PageSize
    · obtain ⟨rfl, hpa⟩ := hself
      -- the page is as the fault found it
      have hs := (running_some hrun).2.2.1
      have hpt : sp'.pageTable (addr / PageSize) = sp.pageTable (addr / PageSize) := by
        have := hin.foundPage
        simpa [Kernel.page, hin.space, hs] using this
      have hexe : sp'.executable = sp.executable := by
        have hshape := congrFun hin.foundLayout.shape t
        rw [shape_some hin.space, shape_some hs] at hshape
        exact congrArg (·.executable) (Option.some.inj hshape)
      have haddr : addr / PageSize * PageSize + a % PageSize = a := by
        have := Nat.div_add_mod a PageSize
        rw [← hpa, Nat.mul_comm]
        exact this
      have hbyte : (sp'.pageTable (addr / PageSize)).location ≠ .SWAP →
          (if ((g.exe t).programByte a).isSome then decide ((g.exe t).Placed a)
            else decide (k.incoming sp (addr / PageSize) ppn (a % PageSize) = 0)) = true := by
        intro hloc
        have hzero := hfills.2
        simp only [ZeroFills, hop, hrun] at hzero
        have hall := hzero hmiss hl (by rw [← hpt]; exact hloc)
        rw [hin.found] at hall
        have hbyte := List.all_eq_true.mp hall (a % PageSize)
          (List.mem_range.mpr (Nat.mod_lt _ (by decide)))
        rwa [haddr] at hbyte
      refine h.broughtIn hin hpa hlive h₁ hfresh (fun hloc hsome => ?_) fun hloc hnone => ?_
      · have hplaced := hbyte hloc
        rw [if_pos hsome] at hplaced
        exact of_decide_eq_true hplaced
      have hin0 := hbyte hloc
      rw [hnone, Option.isSome_none, if_neg Bool.false_ne_true] at hin0
      replace hin0 := of_decide_eq_true hin0
      have hmem := (h.transparent.sound.frames.findFrame_keeps hin.found).2.2
      rw [← hin0]
      unfold Kernel.incoming
      rw [hpt, hexe, hmem]
      cases hl : (sp.pageTable (addr / PageSize)).location with
      | SWAP =>
        rw [hpt] at hloc
        exact absurd hl hloc
      | EXEC => rfl
      | VOID => rfl
      | MAIN => rfl
    · exact h₁.faultedIn hin ((hin.foundLayout.hasPage t _).mpr hp) hself

/-- A completed store: its byte is not fresh any more, and the others stay. -/
theorem store (h : Fresh k g) {tid s addr pa : Nat} {sp : AddrSpace} {value : UInt8}
    (hrun : k.running = some (tid, s, sp)) (htr : translate k addr true = .ok (k', pa)) :
    Fresh { k' with mainMemory := Function.update k'.mainMemory pa value }
      ⟨g.stored.record (.stored s addr value), g.exe⟩ := by
  obtain ⟨f, hf, rfl, hp, hvalid, hm, hpp, -⟩ := h.transparent.hit hrun htr
  have hsh := tlbOnly_translate htr
  refine ⟨h.transparent.store hrun htr, (h.programs.tlbOnly hsh).same rfl rfl
    fun f _ hv hd => ⟨hv, hd, rfl, rfl⟩, fun t a b hstored hpt hex hfresh => ?_⟩
  simp only [Flat.record] at hstored
  split at hstored
  · cases hstored
  · rename_i hne
    change k'.HasPage t (a / PageSize) at hpt
    change exitedStack k' t (a / PageSize) = false at hex
    rw [hsh.hasPage] at hpt
    rw [hsh.sameLayout.exitedStack] at hex
    have hold := h.bytes t a b hstored hpt hex hfresh
    change (k'.page t (a / PageSize)).valid = true →
      ((k'.page t (a / PageSize)).location = .MAIN → Function.update k'.mainMemory _ value
        ((k'.page t (a / PageSize)).physicalPage.toNat * PageSize + a % PageSize) = b) ∧
      ((k'.page t (a / PageSize)).location = .SWAP →
        k'.swapFile ((k'.page t (a / PageSize)).byteOffset.toNat + a % PageSize) = b)
    rw [hsh.page, hsh.swapFile, hsh.mainMemory]
    intro hv
    refine ⟨fun hmain => ?_, (hold hv).2⟩
    rw [Function.update_of_ne]
    · exact (hold hv).1 hmain
    · exact h.transparent.sound.frames.byte_ne hp hvalid hm hpp hpt hv hmain hne

/-- The bytes of old pages of a space that gains pages. -/
theorem extended_bytes {s : Nat} {sp : AddrSpace} (he : Extended k s sp)
    {t addr : Nat} {b : UInt8} (hp : (k.setSpace s sp).HasPage t (addr / PageSize))
    (hold : k.HasPage t (addr / PageSize) → Shows k t addr b) :
    Shows (k.setSpace s sp) t addr b := by
  rcases he.cases hp with ⟨hp', hpage⟩ | ⟨-, hinvalid⟩
  · exact (hold hp').congr hpage rfl rfl
  · intro hv
    rw [hinvalid.1] at hv
    cases hv

/-- Only the threads changed, and no exited stack came back. -/
theorem rethreaded_bytes (h : Fresh k g) (hpage : k'.page = k.page)
    (hnum : k'.numPages = k.numPages) (hmem : k'.mainMemory = k.mainMemory)
    (hfile : k'.swapFile = k.swapFile)
    (hex : ∀ t v, exitedStack k' t v = false → exitedStack k t v = false) {t addr : Nat} {b : UInt8}
    (hstored : g.stored t addr = none) (hp : k'.HasPage t (addr / PageSize))
    (hlive : exitedStack k' t (addr / PageSize) = false)
    (hfresh : (g.exe t).freshByte addr = b) : Shows k' t addr b := by
  have hp' : k.HasPage t (addr / PageSize) := by
    unfold Kernel.HasPage at hp ⊢
    rwa [hnum] at hp
  exact (h.bytes t addr b hstored hp' (hex t _ hlive) hfresh).congr (by rw [hpage]) hmem hfile

/-- **One step of the machine that fills fresh memory with the program and zeros.** -/
theorem step {c c' : Kernel × History} {op : Op} (h : Fresh c.1 c.2)
    (hstep : Lib.Restrict FreshStep FillsZero c op c') : Fresh c'.1 c'.2 := by
  obtain ⟨⟨⟨hen, event, hnext, hstored⟩, hexe⟩, hfills⟩ := hstep
  obtain ⟨k, g⟩ := c
  obtain ⟨k', g'⟩ := c'
  obtain ⟨stored', exe'⟩ := g'
  dsimp only at hen hnext hstored hexe h ⊢
  subst hstored hexe
  have htrans := h.transparent.stepSpec hfills.1 (next_spec hen hnext)
  have hsound := h.transparent.sound
  cases next_spec hen hnext with
  | loadHit hrun htr =>
    have hsh := tlbOnly_translate htr
    refine ⟨htrans, h.programs.tlbOnly hsh, fun t a b hst hp hex hfresh => ?_⟩
    rw [hsh.hasPage] at hp
    rw [hsh.sameLayout.exitedStack] at hex
    exact (h.bytes t a b hst hp hex hfresh).tlbOnly hsh
  | storeHit hrun htr => exact h.store hrun htr
  | miss hop hrun hmiss hfault =>
    have hexe : recordExe k g.exe op = g.exe := by
      cases op with
      | create => cases hop
      | _ => rfl
    rw [hexe]
    exact h.missed hop hrun hmiss hfills hfault
  | @run tid space hthread =>
    have ht : TLBOnly k (if k.currentSpace.isSome then saveState k else k) := by
      split
      · exact tlbOnly_saveState k
      · exact .refl k
    refine ⟨htrans, (h.programs.tlbOnly ht).same rfl rfl fun f _ hv hd => ⟨hv, hd, rfl, rfl⟩,
      fun t a b hst hp hex hfresh => ?_⟩
    refine h.rethreaded_bytes ht.page ht.numPages ht.mainMemory ht.swapFile (fun t v hlive => ?_)
      hst hp hex hfresh
    exact exitedStack_mono hlive (congrFun ht.shape t) (le_of_eq ht.threadIDCount.symm)
      fun u _ hdead => (congrFun ht.threads u).trans hdead
  | newThread space hspace =>
    refine ⟨htrans, h.programs.same rfl rfl fun f _ hv hd => ⟨hv, hd, rfl, rfl⟩,
      fun t a b hst hp hex hfresh => ?_⟩
    have hmono : ∀ t v, exitedStack (newThread k space) t v = false →
        exitedStack k t v = false := by
      intro t v hlive
      refine exitedStack_mono hlive rfl (Nat.le_succ _) fun u hlt hdead => ?_
      exact (Function.update_of_ne (Nat.ne_of_lt hlt) _ _).trans hdead
    have hkept : (newThread k space).page = k.page := rfl
    exact h.rethreaded_bytes hkept rfl rfl rfl hmono hst hp hex hfresh
  | @create tid hcur hthread new =>
    refine ⟨htrans, h.programs.created hsound tid new, fun t a b hst hp hex hfresh => ?_⟩
    have hfresh0 := hsound.spaces.fresh k.spaceCount le_rfl
    refine Shows.congr (k := k.setSpace k.spaceCount (AddrSpace.new new tid)) ?_ rfl rfl rfl
    refine extended_bytes (extended_new hfresh0 new tid) hp fun hp' => ?_
    have hts : t ≠ k.spaceCount := by
      rintro rfl
      simp [Kernel.HasPage, Kernel.numPages, hfresh0] at hp'
    simp only [recordExe, Function.update_of_ne hts] at hfresh
    refine h.bytes t a b hst hp' ?_ hfresh
    refine exitedStack_mono hex ?_ le_rfl fun u _ hdead => ?_
    · simp [Kernel.shape, createSpace, Kernel.setSpace, Function.update_of_ne hts]
    · have hne : u ≠ tid := by
        rintro rfl
        rw [hthread] at hdead
        cases hdead
      exact (Function.update_of_ne hne _ _).trans hdead
  | @fork tid s sp hrun hfresh0 junk =>
    obtain ⟨-, hthread, hs, -⟩ := running_some hrun
    refine ⟨htrans, h.programs.forked hsound hs junk, fun t a b hst hp hex hfresh => ?_⟩
    refine extended_bytes (extended_fork hs tid junk) hp fun hp' => ?_
    exact h.bytes t a b hst hp' (exitedStack_fork hthread hs junk hex) hfresh
  | @exit tid s sp pages hrun hpages =>
    obtain ⟨-, hthread, hs, -⟩ := running_some hrun
    have hrange := hsound.stackPages hs hpages
    have hlay := clearStack_sameLayout hrange
    obtain ⟨hpage, hmem, hfile⟩ := clearStack_others hrange
    refine ⟨htrans, (h.programs.exited hsound hs hpages).same rfl rfl
      fun f _ hv hd => ⟨hv, hd, rfl, rfl⟩, fun t a b hst hp hex hfresh => ?_⟩
    obtain ⟨hne, hlive⟩ :=
      exitedStack_exit hlay (h.transparent.threads tid _ hthread) hs hpages t hex
    have hp' : k.HasPage t (a / PageSize) := (hlay.hasPage t _).mp hp
    exact (h.bytes t a b hst hp' hlive hfresh).congr (hpage t _ hne) hmem hfile
  | @delete tid s sp hrun junk =>
    obtain ⟨-, hmem, hfile, hpage⟩ := Programs.deleteSpace_others k s junk
    obtain ⟨hlay, -⟩ := deleteLoop_rule (I := fun _ => True) (k := k) s junk
      (fun _ _ _ _ _ => trivial) trivial le_rfl
    have hlay := hlay.trans (tlbOnly_saveState _).sameLayout
    refine ⟨htrans, (h.programs.deleted hsound s junk).same rfl rfl
      fun f _ hv hd => ⟨hv, hd, rfl, rfl⟩, fun t a b hst hp hex hfresh => ?_⟩
    obtain ⟨hts, hp'⟩ := deleteSpace_hasPage tid hlay hp
    have hlive := exitedStack_delete tid hlay hts hex
    exact (h.bytes t a b hst hp' hlive hfresh).congr (hpage t _ hts) hmem hfile

/-- **A completed load of an address that was not stored to.** -/
theorem load (h : Fresh k g) {tid s addr pa : Nat} {sp : AddrSpace}
    (hrun : k.running = some (tid, s, sp)) (htr : translate k addr false = .ok (k', pa))
    (hlive : exitedStack k s (addr / PageSize) = false) (hstored : g.stored s addr = none) :
    k'.mainMemory pa = (g.exe s).freshByte addr := by
  obtain ⟨f, -, rfl, hp, hvalid, hm, hpp, -⟩ := h.transparent.hit hrun htr
  have hb := (h.bytes s addr _ hstored hp hlive rfl hvalid).1 hm
  rw [hpp, Int.toNat_natCast] at hb
  rw [(tlbOnly_translate htr).mainMemory]
  exact hb

end Fresh

/-- A load that completes, of an address that is not in an exited thread's stack. -/
def Loads (c : Kernel × History) (s addr : Nat) (value : UInt8) : Prop :=
  ∃ op k', enabled c.1 op = true ∧ LiveAccess (c.1, c.2.stored) op ∧
    next c.1 op = .ok (k', .loaded s addr value)

/-- A run from the start, with nothing stored, whose steps all meet the condition. -/
def FreshRun (C : Kernel × History → Op → Prop) (c : Kernel × History) : Prop :=
  ∃ useFIFO exe, Lib.Reachable (Lib.Restrict FreshStep C)
    (Kernel.init useFIFO, ⟨Flat.empty, exe⟩) c

theorem FreshRun.fresh {c : Kernel × History} (h : FreshRun FillsZero c) : Fresh c.1 c.2 := by
  obtain ⟨useFIFO, exe, h⟩ := h
  exact h.invariant (I := fun c => Fresh c.1 c.2) (Fresh.init useFIFO exe)
    fun _ _ _ hc hstep => hc.step hstep

/-- What a load returns is fixed by the program and the stores of its own space. -/
theorem Fresh.loads {c : Kernel × History} (h : Fresh c.1 c.2) {s addr : Nat} {value : UInt8}
    (hload : Loads c s addr value) :
    value = (c.2.stored s addr).getD ((c.2.exe s).freshByte addr) := by
  obtain ⟨op, k', hen, hlive, hnext⟩ := hload
  have hspec := next_spec hen hnext
  cases hspec with
  | loadHit hrun htr =>
    have hex : exitedStack c.1 s (addr / PageSize) = false := by
      simpa [LiveAccess, Op.address, hrun] using hlive
    cases hstored : c.2.stored s addr with
    | none => exact h.load hrun htr hex hstored
    | some b => exact h.transparent.load hrun htr hex hstored

/-- **Fresh memory reveals nothing** in a run whose faults find the program where they read it and
leave only zeros outside it: a load of an address its space has not stored to returns the byte of
the program, or 0. Two such runs, whatever the other processes do in them, show a process the same
bytes. -/
theorem fresh_memory_reveals_nothing {c : Kernel × History} (h : FreshRun FillsZero c)
    {s addr : Nat} {value : UInt8} (hload : Loads c s addr value) :
    (c.2.stored s addr = none → value = (c.2.exe s).freshByte addr) ∧
    ∀ (c' : Kernel × History) (s' : Nat) (value' : UInt8), FreshRun FillsZero c' →
      c'.2.exe s' = c.2.exe s → c'.2.stored s' addr = c.2.stored s addr →
      Loads c' s' addr value' → value' = value := by
  have hvalue := h.fresh.loads hload
  refine ⟨fun hstored => ?_, fun c' s' value' h' hexe hst hload' => ?_⟩
  · rw [hvalue, hstored]
    rfl
  · rw [h'.fresh.loads hload', hvalue, hexe, hst]

/-- The step beside the history as a function. -/
def freshStep? (c : Kernel × History) (op : Op) : Option (Kernel × History) :=
  (flatStep? (c.1, c.2.stored) op).map fun c' => (c'.1, ⟨c'.2, recordExe c.1 c.2.exe op⟩)

theorem freshStep_of_freshStep? {c c' : Kernel × History} {op : Op}
    (h : freshStep? c op = some c') : FreshStep c op c' := by
  obtain ⟨c₁, hc₁, rfl⟩ := Option.map_eq_some_iff.mp h
  exact ⟨flatStep_of_flatStep? hc₁, rfl⟩

/-- The load that the running thread completes next. -/
def loadsNext (c : Kernel × History) (s addr : Nat) (value : UInt8) : Bool :=
  decide (enabled c.1 (.load addr 0) = true ∧ LiveAccess (c.1, c.2.stored) (.load addr 0) ∧
    (next c.1 (.load addr 0)).toOption.map Prod.snd = some (.loaded s addr value))

theorem loads_of_loadsNext {c : Kernel × History} {s addr : Nat} {value : UInt8}
    (h : loadsNext c s addr value = true) : Loads c s addr value := by
  obtain ⟨hen, hlive, hload⟩ := of_decide_eq_true h
  cases hn : next c.1 (.load addr 0) with
  | error stop => simp [hn, Except.toOption] at hload
  | ok res =>
    obtain ⟨k', event⟩ := res
    simp only [hn, Except.toOption, Option.map_some, Option.some.injEq] at hload
    subst hload
    exact ⟨_, k', hen, hlive, hn⟩

/-- A program of one page, with three bytes of code behind the header of its file. -/
def smallProgram : Executable :=
  ⟨⟨0, 40, 3⟩, ⟨3, 43, 0⟩, ⟨3, 43, PageSize - 3⟩, List.replicate 40 0 ++ [1, 2, 3]⟩

/-- A process stores a byte at 100, then a second process touches `addr`. -/
def storeThenRead (value : UInt8) (between : List Op) (addr : Nat) : List Op :=
  [.newThread false, .create smallProgram, .store 100 value 0, .store 100 value 0] ++ between ++
    [.run 1, .create smallProgram, .load addr 0]

/-- The state after a list of steps that all meet the condition, if it shows the load. -/
theorem freshRun_loads (C : Kernel × History → Op → Prop) [∀ c op, Decidable (C c op)]
    (ops : List Op) (s addr : Nat) (value : UInt8)
    (h : (Lib.execute (Lib.guarded freshStep? C)
      (Kernel.init true, ⟨Flat.empty, fun _ => smallProgram⟩) ops).any (fun c =>
        decide (c.2.stored s addr = none ∧ c.2.exe s = smallProgram) &&
        loadsNext c s addr value) = true) :
    ∃ c, FreshRun C c ∧ c.2.stored s addr = none ∧ c.2.exe s = smallProgram ∧
      Loads c s addr value := by
  obtain ⟨c, hc, hp⟩ := (Option.any_eq_true _ _).mp h
  obtain ⟨hstored, hload⟩ := Bool.and_eq_true_iff.mp hp
  obtain ⟨hnone, hexe⟩ := of_decide_eq_true hstored
  exact ⟨c, ⟨true, _, Lib.reachable_of_guarded (fun _ _ _ => freshStep_of_freshStep?) hc⟩, hnone,
    hexe, loads_of_loadsNext hload⟩

/-- Two runs in which another process stores different bytes, and lives on. -/
theorem fresh_memory_reveals_nothing_code :
    ∃ c c' value value', FreshRun FillsZero c ∧ FreshRun FillsZero c' ∧
      Loads c 1 1 value ∧ Loads c' 1 1 value' ∧ value = smallProgram.freshByte 1 ∧
      value' = value := by
  obtain ⟨c, hrun, hstored, hexe, hload⟩ :=
    freshRun_loads FillsZero (storeThenRead 7 [] 1) 1 1 2 (by decide +kernel)
  obtain ⟨c', hrun', hstored', hexe', hload'⟩ :=
    freshRun_loads FillsZero (storeThenRead 8 [] 1) 1 1 2 (by decide +kernel)
  obtain ⟨hfresh, hsame⟩ := fresh_memory_reveals_nothing hrun hload
  rw [hexe] at hfresh
  exact ⟨c, c', 2, 2, hrun, hrun', hload, hload', hfresh hstored,
    hsame c' 1 2 hrun' (hexe'.trans hexe.symm) (hstored'.trans hstored.symm) hload'⟩

/-- The first process is deleted, and the stack of the second one gets its frame: the byte
is still there. -/
theorem stack_reveals_stored_byte :
    ∃ c, FreshRun (fun c op => LiveAccess (c.1, c.2.stored) op) c ∧
      c.2.stored 1 (PageSize + 100) = none ∧ Loads c 1 (PageSize + 100) 7 ∧
      (c.2.exe 1).freshByte (PageSize + 100) = 0 := by
  obtain ⟨c, hrun, hstored, hexe, hload⟩ :=
    freshRun_loads (fun c op => LiveAccess (c.1, c.2.stored) op)
      (storeThenRead 7 [.delete fun _ => 0] (PageSize + 100)) 1 (PageSize + 100) 7
      (by decide +kernel)
  refine ⟨c, hrun, hstored, hload, ?_⟩
  rw [hexe]
  decide

end Nachos.VM

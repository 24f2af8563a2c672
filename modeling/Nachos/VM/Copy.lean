import Nachos.VM.Coherence
import Nachos.VM.Transparent

/-!
# Copies between the kernel and user memory

`copyin` and `copyout` (`userprog/exception.cc`) move the buffer of a system call one byte
at a time through `Machine::ReadMem` and `Machine::WriteMem`. An access that misses the TLB
is handled like any other page fault and reports failure, and the caller has to try again.
`copyin` does, in a loop of its own. `copyout` takes the first failure for a bad address and
gives up, with the bytes before it written.

So `copyin` returns the user bytes whatever the TLB holds (`copyin_returns`), and `copyout`
works exactly when no byte of the range misses the TLB (`copies_succeed_iff`).

`rand` gives the values of `rand()`, for the byte and the attempt.
-/

namespace Nachos.VM

/-! ## The two loops -/

/-- The loop of `copyout` with `n` bytes written and `left` to write. -/
def copyoutFrom (s vaddr : Nat) (buf : Nat → UInt8) (rand : Nat → Nat) :
    Kernel → Nat → Nat → Except Stop (Kernel × Int)
  | k, n, 0 => .ok (k, n)
  | k, n, left + 1 =>
    match writeMem k s (vaddr + n) (buf n) (rand n) with
    | .error stop => .error stop
    | .ok (k, false) => .ok (k, -1)
    | .ok (k, true) => copyoutFrom s vaddr buf rand k (n + 1) left

/-- `copyout`: the state and the returned number. -/
def copyout (k : Kernel) (s vaddr len : Nat) (buf : Nat → UInt8) (rand : Nat → Nat) :
    Except Stop (Kernel × Int) :=
  copyoutFrom s vaddr buf rand k 0 len

/-- The inner loop of `copyin`: read the byte until the read succeeds. The result is `none`
when it has not after `fuel` attempts. -/
def readUntil (s addr : Nat) (rand : Nat → Nat) :
    Kernel → Nat → Except Stop (Kernel × Option UInt8)
  | k, 0 => .ok (k, none)
  | k, fuel + 1 =>
    match readMem k s addr (rand fuel) with
    | .error stop => .error stop
    | .ok (k, some byte) => .ok (k, some byte)
    | .ok (k, none) => readUntil s addr rand k fuel

/-- The outer loop of `copyin`: the bytes from the `n`th on. The test for `-1` after the
inner loop never succeeds and is left out. -/
def copyinFrom (s vaddr : Nat) (rand : Nat → Nat → Nat) (fuel : Nat) :
    Kernel → Nat → Nat → Except Stop (Kernel × Option (List UInt8))
  | k, _, 0 => .ok (k, some [])
  | k, n, left + 1 =>
    match readUntil s (vaddr + n) (rand n) k fuel with
    | .error stop => .error stop
    | .ok (k, none) => .ok (k, none)
    | .ok (k, some byte) =>
      (copyinFrom s vaddr rand fuel k (n + 1) left).map fun res =>
        (res.1, res.2.map (byte :: ·))

/-- `copyin`: the state, and the returned number with the bytes of the buffer; `none` when
an inner loop is still running after `fuel` attempts. -/
def copyin (k : Kernel) (s vaddr len : Nat) (rand : Nat → Nat → Nat) (fuel : Nat) :
    Except Stop (Kernel × Option (Int × List UInt8)) :=
  (copyinFrom s vaddr rand fuel k 0 len).map fun res => (res.1, res.2.map ((len : Int), ·))

/-! ## User memory -/

/-- The byte of user memory at an address: in its frame, in its swap slot or in the
executable. A page that is nowhere has none. -/
def Kernel.userByte (k : Kernel) (s addr : Nat) : Option UInt8 :=
  (k.spaces s).bind fun sp =>
    let p := sp.pageTable (addr / PageSize)
    match p.location with
    | .MAIN =>
      if p.valid then
        some (k.mainMemory (p.physicalPage.toNat * PageSize + addr % PageSize))
      else none
    | .SWAP => some (k.swapFile (p.byteOffset.toNat + addr % PageSize))
    | .EXEC => sp.executable[p.byteOffset.toNat + addr % PageSize]?
    | .VOID => none

/-! ## Nothing is mapped read-only

No code of the kernel sets `readOnly`, so a store to a resident page is never refused, and
the TLB entry that `populateTLBFromIPTEntry` fills next is one that `Translate` searches. -/

structure Writable (k : Kernel) : Prop where
  current : k.currentTLB < TLBSize
  tlb : ∀ i, (k.tlb i).readOnly = false
  IPT : ∀ f, (k.IPT f).readOnly = false
  page : ∀ s v, (k.page s v).readOnly = false

namespace Writable

variable {k k' : Kernel}

theorem congr (h : Writable k) (hcur : k'.currentTLB = k.currentTLB) (htlb : k'.tlb = k.tlb)
    (hIPT : k'.IPT = k.IPT) (hpage : k'.page = k.page) : Writable k' := by
  refine ⟨?_, ?_, ?_, ?_⟩
  · rw [hcur]; exact h.current
  · rw [htlb]; exact h.tlb
  · rw [hIPT]; exact h.IPT
  · rw [hpage]; exact h.page

theorem modTLB (h : Writable k) (i : Nat) {g : TranslationEntry → TranslationEntry}
    (hg : ∀ e, e.readOnly = false → (g e).readOnly = false) : Writable (k.modTLB i g) := by
  refine ⟨h.current, fun j => ?_, h.IPT, h.page⟩
  rw [modTLB_tlb]
  split
  · exact hg _ (h.tlb i)
  · exact h.tlb j

theorem modIPT (h : Writable k) (f : Nat) {g : IPTEntry → IPTEntry}
    (hg : ∀ e, e.readOnly = false → (g e).readOnly = false) : Writable (k.modIPT f g) := by
  refine ⟨h.current, h.tlb, fun p => ?_, h.page⟩
  rw [modIPT_IPT]
  split
  · exact hg _ (h.IPT f)
  · exact h.IPT p

theorem modPage (h : Writable k) (s v : Nat) {g : PageTableEntry → PageTableEntry}
    (hg : ∀ e, e.readOnly = false → (g e).readOnly = false) : Writable (k.modPage s v g) := by
  refine ⟨h.current, h.tlb, h.IPT, fun t w => ?_⟩
  by_cases ht : t = s
  · subst ht
    have hw := h.page t w
    have hv := h.page t v
    cases hsp : k.spaces t with
    | none => simp [Kernel.page, Kernel.modPage, hsp]
    | some sp =>
      simp only [Kernel.page, hsp] at hw hv
      simp only [Kernel.page, Kernel.modPage, AddrSpace.modPage, hsp, Function.update_self,
        Option.map_some, Function.update_apply]
      split
      · exact hg _ hv
      · exact hw
  · have hw := h.page t w
    simp only [Kernel.page, Kernel.modPage, Function.update_of_ne ht] at hw ⊢
    exact hw

/-! ### The fault path -/

theorem propogate (h : Writable k) (i : Nat) : Writable (propogateCurTLBDirty k i) := by
  unfold propogateCurTLBDirty
  split
  · exact h.modIPT _ fun _ he => he
  · exact h

theorem populate (h : Writable k) (ppn : Nat) : Writable (populateTLBFromIPTEntry k ppn) := by
  have hp := h.propogate k.currentTLB
  have ht := hp.modTLB (propogateCurTLBDirty k k.currentTLB).currentTLB
    (g := fun _ => ((propogateCurTLBDirty k k.currentTLB).IPT ppn).toTranslationEntry)
    fun _ _ => hp.IPT ppn
  exact ⟨Nat.mod_lt _ (by decide), ht.tlb, ht.IPT, ht.page⟩

theorem dropFrame (h : Writable k) (ppn : Nat) : Writable (dropFrameFromTLB k ppn) := by
  unfold dropFrameFromTLB
  split
  · exact h
  · refine Writable.modTLB ?_ _ fun _ he => he
    split
    · exact h.modIPT _ fun _ he => he
    · exact h

theorem saved (h : Writable k) : Writable (saveState k) := by
  refine List.foldlRecOn (motive := Writable) (List.range TLBSize) saveTLBEntry h ?_
  intro k₁ hk₁ i _
  exact (hk₁.propogate i).modTLB i fun _ he => he

theorem memoryFull (h : Writable k) {r ppn : Nat} (hm : handleMemoryFull k r = .ok (k', ppn)) :
    Writable k' := by
  unfold handleMemoryFull at hm
  split at hm
  · cases hm
  · rename_i p _
    split at hm
    · cases hrec : recordEviction (dropFrameFromTLB k p) p with
      | error stop => simp [hrec] at hm
      | ok k₁ =>
        simp only [hrec] at hm
        cases hm
        have hk₁ : Writable k₁ := by
          have hd := h.dropFrame ppn
          unfold recordEviction writePageToSwap at hrec
          dsimp only at hrec
          split at hrec
          · split at hrec
            · cases hrec
            · rename_i _ k₂ off hw
              cases hrec
              refine Writable.modPage ?_ _ _ fun _ he => he
              split at hw
              · split at hw
                · cases hw
                · cases hw
                  exact hd.congr rfl rfl rfl rfl
              · cases hw
                exact hd
          · cases hrec
            exact hd.modPage _ _ fun _ he => he
        have hIPT := hk₁.modIPT ppn (g := ({ · with valid := false })) fun _ he => he
        exact hIPT.congr rfl rfl rfl rfl
    · cases hm

theorem findFrame (h : Writable k) {r ppn : Nat} (hf : VM.findFrame k r = .ok (k', ppn)) :
    Writable k' := by
  rcases findFrame_spec hf with ⟨m, -, rfl⟩ | ⟨-, hfull⟩
  · exact h.congr rfl rfl rfl rfl
  · exact h.memoryFull hfull

theorem missed (h : Writable k) {s VA r : Nat} (hm : handleTLBMiss k s VA r = .ok k') :
    Writable k' := by
  obtain ⟨k₃, ppn, rfl, ⟨rfl, -⟩ | ⟨-, hmiss⟩⟩ := handleTLBMiss_spec hm
  · exact h.populate ppn
  · obtain ⟨k₁, sp, k₂, hfind, hsp, hv, hload, rfl⟩ := handleIPTmiss_spec hmiss
    have h₂ : Writable k₂ := by
      rw [loadPage_same hload]
      exact (h.findFrame hfind).congr rfl rfl rfl rfl
    have hpage := h₂.modPage s (VA / PageSize)
      (g := ({ · with physicalPage := ppn, valid := true, location := .MAIN })) fun _ he => he
    have hIPT := hpage.modIPT ppn (g := fun _ => IPTEntry.mk
      ((k₂.modPage s (VA / PageSize) ({ · with
        physicalPage := ppn, valid := true, location := .MAIN })).page s
          (VA / PageSize)).toTranslationEntry s) fun _ _ => hpage.page s (VA / PageSize)
    have hrec : Writable (recordLoad k₂ s (VA / PageSize) ppn) := hIPT.congr rfl rfl rfl rfl
    exact hrec.populate ppn

/-! ### Spaces -/

theorem setSpace (h : Writable k) (s : Nat) {sp : AddrSpace}
    (hsp : ∀ v, (sp.pageTable v).readOnly = false) : Writable (k.setSpace s sp) := by
  refine ⟨h.current, h.tlb, h.IPT, fun t v => ?_⟩
  rw [setSpace_page]
  split
  · exact hsp v
  · exact h.page t v

theorem forkTable (h : Writable k) {s : Nat} {sp : AddrSpace} (hs : k.spaces s = some sp)
    (tid : Nat) (junk : Nat → Int) (v : Nat) :
    ((sp.fork tid junk).pageTable v).readOnly = false := by
  have hv := h.page s v
  simp only [Kernel.page, hs] at hv
  simp only [AddrSpace.fork]
  split
  · exact hv
  · rfl

theorem clearSlot (h : Writable k) (off : Int) : Writable (clearSwapSlot k off) :=
  h.congr rfl rfl rfl rfl

theorem freed (h : Writable k) (ppn : Nat) : Writable (freeFrame k ppn) := by
  have hbits : Writable { k with pageTableBitMap := k.pageTableBitMap.clear ppn } :=
    h.congr rfl rfl rfl rfl
  exact hbits.modIPT ppn fun _ he => he

theorem exitPage (h : Writable k) (s v : Nat) : Writable (exitPage s k v) := by
  unfold VM.exitPage
  refine Writable.modPage ?_ s v fun _ he => he
  split
  · split
    · exact (h.freed _).congr rfl rfl rfl rfl
    · exact h.clearSlot _
    · exact h
    · exact h
  · exact h

theorem exited (h : Writable k) (s : Nat) (pages : List Nat) : Writable (clearStack k s pages) := by
  refine Writable.saved ?_
  refine List.foldlRecOn (motive := Writable) (pages.take 8) (VM.exitPage s) h ?_
  intro k₁ hk₁ v _
  exact hk₁.exitPage s v

theorem deletePage (h : Writable k) (s : Nat) (junk : Nat → Int) (v : Nat) :
    Writable (deletePage s junk k v) := by
  unfold VM.deletePage
  dsimp only
  split
  · refine Writable.modPage ?_ s v fun _ he => he
    split
    · refine Writable.freed ?_ _
      exact h.congr rfl rfl rfl rfl
    · exact h.clearSlot _
    · exact h
    · exact h
  · exact h

theorem deleted (h : Writable k) (s : Nat) (junk : Nat → Int) : Writable (deleteSpace k s junk) := by
  have hloop : Writable (saveState ((List.range (k.numPages s)).foldl (VM.deletePage s junk) k)) := by
    refine Writable.saved ?_
    refine List.foldlRecOn (motive := Writable) (List.range (k.numPages s)) (VM.deletePage s junk)
      h ?_
    intro k₁ hk₁ v _
    exact hk₁.deletePage s junk v
  refine ⟨hloop.current, hloop.tlb, hloop.IPT, fun t v => ?_⟩
  have hv := hloop.page t v
  by_cases ht : t = s
  · simp [Kernel.page, deleteSpace, ht]
  · simpa [Kernel.page, deleteSpace, Function.update_of_ne ht] using hv

/-! ### Runs -/

theorem init (useFIFO : Bool) : Writable (Kernel.init useFIFO) :=
  ⟨Nat.zero_lt_succ _, fun _ => rfl, fun _ => rfl, fun _ _ => rfl⟩

theorem translated (h : Writable k) {addr pa : Nat} {w : Bool}
    (htr : translate k addr w = .ok (k', pa)) : Writable k' := by
  obtain ⟨i, f, -, -, -, -, -, -, rfl⟩ := translate_ok htr
  exact h.modTLB i fun _ he => he

theorem stepSpec {op : Op} {event : Event} (h : Writable k) (hstep : StepSpec k op k' event) :
    Writable k' := by
  cases hstep with
  | loadHit hrun htr => exact h.translated htr
  | storeHit hrun htr => exact (h.translated htr).congr rfl rfl rfl rfl
  | miss hop hrun hmiss hfault => exact h.missed hfault
  | run hthread =>
    unfold schedulerRun
    split
    · exact h.saved.congr rfl rfl rfl rfl
    · exact h.congr rfl rfl rfl rfl
  | newThread space hspace => exact h.congr rfl rfl rfl rfl
  | create hcur hthread exe => exact (h.setSpace k.spaceCount fun _ => rfl).congr rfl rfl rfl rfl
  | fork hrun hfresh junk => exact h.setSpace _ (h.forkTable (running_some hrun).2.2.1 _ junk)
  | exit hrun hpages => exact (h.exited _ _).congr rfl rfl rfl rfl
  | delete hrun junk => exact (h.deleted _ junk).congr rfl rfl rfl rfl

end Writable

/-! ## One byte -/

/-- What a byte access relies on, in every reachable state. -/
structure Ready (k : Kernel) : Prop where
  sound : Sound k
  tlb : TLBInv k
  writable : Writable k

theorem ready_of_reachable {useFIFO : Bool} {k : Kernel}
    (h : Lib.Reachable Step (Kernel.init useFIFO) k) : Ready k := by
  have hinv : (∃ m, Coherent k m) ∧ Writable k := by
    refine h.invariant (I := fun k => (∃ m, Coherent k m) ∧ Writable k)
      ⟨⟨_, Coherent.init useFIFO fun _ _ => 0⟩, Writable.init useFIFO⟩ ?_
    rintro k₁ op k₂ ⟨⟨m, hm⟩, hw⟩ ⟨hen, event, hnext⟩
    have hspec := next_spec hen hnext
    exact ⟨⟨_, hm.stepSpec hspec⟩, hw.stepSpec hspec⟩
  obtain ⟨⟨m, hm⟩, hw⟩ := hinv
  exact ⟨hm.sound, hm.tlb, hw⟩

/-- Where the byte is in main memory, when its page is resident. -/
def Kernel.physical (k : Kernel) (s addr : Nat) : Nat :=
  (k.page s (addr / PageSize)).physicalPage.toNat * PageSize + addr % PageSize

/-- The page of the address is in memory. -/
def Kernel.Resident (k : Kernel) (s addr : Nat) : Prop :=
  k.HasPage s (addr / PageSize) ∧ (k.page s (addr / PageSize)).valid = true ∧
    (k.page s (addr / PageSize)).location = .MAIN

/-- `Translate` finds the page of the address. -/
def InTLB (k : Kernel) (addr : Nat) : Prop := (tlbEntryOfPage k (addr / PageSize)).isSome = true

instance (k : Kernel) (addr : Nat) : Decidable (InTLB k addr) :=
  inferInstanceAs (Decidable (_ = _))

theorem tlbEntryOfPage_some {k : Kernel} {v i : Nat} (h : tlbEntryOfPage k v = some i) :
    i < TLBSize ∧ (k.tlb i).valid = true ∧ (k.tlb i).virtualPage = v := by
  obtain ⟨hfound, n, hn, heq, -⟩ := List.find?_eq_some_iff_getElem.mp h
  simp only [List.length_range, List.getElem_range] at hn heq
  subst heq
  simp only [Bool.and_eq_true, decide_eq_true_eq] at hfound
  exact ⟨hn, hfound.1, hfound.2⟩

/-- An entry of the TLB that is valid and about the page is found, or one before it. -/
theorem inTLB_of_entry {k : Kernel} {addr i : Nat} (hi : i < TLBSize)
    (hv : (k.tlb i).valid = true) (hp : (k.tlb i).virtualPage = addr / PageSize) :
    InTLB k addr := by
  unfold InTLB tlbEntryOfPage
  rw [List.find?_isSome]
  exact ⟨i, List.mem_range.mpr hi, by simp [hv, hp]⟩

/-- Setting the use and dirty bits of an entry changes no search of the TLB. -/
theorem tlbEntryOfPage_translate {k k' : Kernel} {addr pa : Nat} {w : Bool}
    (h : translate k addr w = .ok (k', pa)) (v : Nat) :
    tlbEntryOfPage k' v = tlbEntryOfPage k v := by
  obtain ⟨i, f, -, -, -, -, -, -, rfl⟩ := translate_ok h
  unfold tlbEntryOfPage
  congr 1
  funext j
  rw [modTLB_tlb]
  split
  · rename_i heq
    rw [heq]
  · rfl

/-- Byte accesses that completed: the bits of TLB entries changed, and main memory is `mem`. -/
structure Accessed (k : Kernel) (mem : Nat → UInt8) (k' : Kernel) : Prop where
  rest : k' = { k with tlb := k'.tlb, mainMemory := mem }
  entries : ∀ v, tlbEntryOfPage k' v = tlbEntryOfPage k v
  ready : Ready k'

namespace Accessed

variable {k k' k'' : Kernel} {mem mem' : Nat → UInt8}

theorem refl (h : Ready k) : Accessed k k.mainMemory k := ⟨rfl, fun _ => rfl, h⟩

theorem trans (h : Accessed k mem k') (h' : Accessed k' mem' k'') : Accessed k mem' k'' := by
  refine ⟨?_, fun v => (h'.entries v).trans (h.entries v), h'.ready⟩
  rw [h'.rest, h.rest]

theorem page (h : Accessed k mem k') : k'.page = k.page := by rw [h.rest]; rfl
theorem mainMemory (h : Accessed k mem k') : k'.mainMemory = mem := by rw [h.rest]
theorem running (h : Accessed k mem k') : k'.running = k.running := by rw [h.rest]; rfl
theorem spaces (h : Accessed k mem k') : k'.spaces = k.spaces := by rw [h.rest]
theorem swapFile (h : Accessed k mem k') : k'.swapFile = k.swapFile := by rw [h.rest]
theorem physical (h : Accessed k mem k') : k'.physical = k.physical := by rw [h.rest]; rfl
theorem inTLB (h : Accessed k mem k') (addr : Nat) : InTLB k' addr ↔ InTLB k addr := by
  unfold InTLB
  rw [h.entries]

end Accessed

namespace Ready

variable {k k' : Kernel} {tid s addr : Nat} {sp : AddrSpace}

/-- An access to a page in the TLB is translated to the byte's place in memory. -/
theorem translate_hit (h : Ready k) (hrun : k.running = some (tid, s, sp)) (hin : InTLB k addr)
    (w : Bool) : k.Resident s addr ∧ ∃ k', translate k addr w = .ok (k', k.physical s addr) := by
  obtain ⟨i, hi⟩ := Option.isSome_iff_exists.mp hin
  obtain ⟨hlt, hv, hvp⟩ := tlbEntryOfPage_some hi
  obtain ⟨f, hf, hpp, hfv, hcur, hvf⟩ := h.tlb.entry i hlt hv
  rw [(running_some hrun).2.2.2] at hcur
  have hent := h.sound.frames.entry f hf hfv
  rw [← Option.some.inj hcur, ← hvf, hvp] at hent
  refine ⟨⟨hent.1, hent.2.1, hent.2.2.1⟩, ?_⟩
  unfold translate Kernel.physical
  simp only [hi, h.writable.tlb i, hpp, hent.2.2.2, Bool.false_and, Bool.false_eq_true, if_false]
  rw [if_pos ⟨Int.natCast_nonneg f, by exact_mod_cast hf⟩]
  exact ⟨_, rfl⟩

theorem translated (h : Ready k) {pa : Nat} {w : Bool} (htr : translate k addr w = .ok (k', pa)) :
    Ready k' :=
  ⟨h.sound.tlbOnly (tlbOnly_translate htr), h.tlb.shrinks (shrinks_translate htr),
    h.writable.translated htr⟩

theorem wrote (h : Ready k) (mem : Nat → UInt8) : Ready { k with mainMemory := mem } :=
  ⟨h.sound.threads rfl, h.tlb.congr rfl (fun _ hc => hc) (fun _ _ _ _ _ => rfl),
    h.writable.congr rfl rfl rfl rfl⟩

/-- **A handled fault is a hit at the next attempt.** -/
theorem missed_inTLB (h : Ready k) {r : Nat} (hm : handleTLBMiss k s addr r = .ok k') :
    InTLB k' addr := by
  -- the frame that ends up in the TLB is valid and holds the page
  have hentry : ∀ {k₃ : Kernel} {ppn : Nat}, Writable k₃ → (k₃.IPT ppn).valid = true →
      (k₃.IPT ppn).virtualPage = addr / PageSize →
      InTLB (populateTLBFromIPTEntry k₃ ppn) addr := by
    intro k₃ ppn hw hv hvp
    have hprop := tlbOnly_propogate k₃ k₃.currentTLB
    refine inTLB_of_entry hw.current ?_ ?_
    · rw [populate_tlb, if_pos rfl]
      exact (hprop.valid ppn).trans hv
    · rw [populate_tlb, if_pos rfl]
      exact (hprop.virtualPage ppn).trans hvp
  rcases handleTLBMiss_cases h.sound.spaces h.sound.frames hm with
    ⟨ppn, hl, rfl⟩ | ⟨k₁, ppn, sp', k₂, k₃, -, hin, rfl⟩
  · obtain ⟨-, hv, -, hvp⟩ := lookupIPT_some hl
    exact hentry h.writable hv hvp
  · have hw : Writable k₃ := by
      have h₁ := h.writable.findFrame hin.found
      have hk₂ := loadPage_same hin.load
      have h₂ : Writable k₂ := by
        rw [hk₂]
        exact h₁.congr rfl rfl rfl rfl
      have hro : ∀ f, (k₃.IPT f).readOnly = false := by
        intro f
        rw [hin.recorded.IPT]
        split
        · exact h₂.page s (addr / PageSize)
        · exact h₂.IPT f
      have hpage : ∀ t v, (k₃.page t v).readOnly = false := by
        intro t v
        rw [hin.recorded.page]
        split
        · exact h₂.page s (addr / PageSize)
        · exact h₂.page t v
      refine ⟨?_, ?_, hro, hpage⟩
      · rw [hin.recorded.rest]; exact h₂.current
      · rw [hin.recorded.rest]; exact h₂.tlb
    have hvpn : (k₂.page s (addr / PageSize)).virtualPage = addr / PageSize := by
      rw [(loadPage_sameLayout hin.load).virtualPage, hin.foundLayout.virtualPage]
      exact h.sound.spaces.vpn s _ ((hin.foundLayout.hasPage s _).mp hin.page)
    refine hentry hw ?_ ?_
    · rw [hin.recorded.IPT, if_pos rfl]
    · rw [hin.recorded.IPT, if_pos rfl]
      exact hvpn

/-- Two bytes of resident pages are at different places. -/
theorem physical_ne (h : Ready k) {t a : Nat} (hres : k.Resident s addr) (hrest : k.Resident t a)
    (hne : ¬ (t = s ∧ a = addr)) : k.physical t a ≠ k.physical s addr := by
  obtain ⟨f, -, hpp, -, -, -⟩ := h.sound.frames.pageFrame hres.1 hres.2.1 hres.2.2
  have hbyte := h.sound.frames.byte_ne hres.1 hres.2.1 hres.2.2 hpp hrest.1 hrest.2.1 hrest.2.2 hne
  unfold Kernel.physical
  rw [hpp, Int.toNat_natCast]
  exact hbyte

/-- `ReadMem` of a byte whose page is in the TLB. -/
theorem readMem_hit (h : Ready k) (hrun : k.running = some (tid, s, sp)) (hin : InTLB k addr)
    (r : Nat) : ∃ k', readMem k s addr r = .ok (k', some (k.mainMemory (k.physical s addr))) ∧
      Accessed k k.mainMemory k' := by
  obtain ⟨-, k', htr⟩ := h.translate_hit hrun hin false
  have hsame := tlbOnly_translate htr
  refine ⟨k', ?_, ?_, tlbEntryOfPage_translate htr, h.translated htr⟩
  · unfold readMem
    rw [htr, ← hsame.mainMemory]
  · obtain ⟨i, f, -, -, -, -, -, -, rfl⟩ := translate_ok htr
    rfl

/-- `WriteMem` of a byte whose page is in the TLB. -/
theorem writeMem_hit (h : Ready k) (hrun : k.running = some (tid, s, sp)) (hin : InTLB k addr)
    (value : UInt8) (r : Nat) : ∃ k', writeMem k s addr value r = .ok (k', true) ∧
      Accessed k (Function.update k.mainMemory (k.physical s addr) value) k' := by
  obtain ⟨-, k', htr⟩ := h.translate_hit hrun hin true
  have hsame := tlbOnly_translate htr
  refine ⟨_, by unfold writeMem; rw [htr], ?_, ?_, (h.translated htr).wrote _⟩
  · rw [hsame.mainMemory]
    obtain ⟨i, f, -, -, -, -, -, -, rfl⟩ := translate_ok htr
    rfl
  · exact fun v => tlbEntryOfPage_translate htr v

end Ready

/-- A byte that was written was in the TLB. -/
theorem writeMem_inTLB {k k' : Kernel} {s addr r : Nat} {value : UInt8}
    (h : writeMem k s addr value r = .ok (k', true)) :
    InTLB k addr ∧ ∀ v, tlbEntryOfPage k' v = tlbEntryOfPage k v := by
  unfold writeMem at h
  cases htr : translate k addr true with
  | ok res =>
    obtain ⟨k₁, pa⟩ := res
    simp only [htr] at h
    cases h
    refine ⟨?_, fun v => ?_⟩
    · unfold InTLB
      cases hl : tlbEntryOfPage k (addr / PageSize) with
      | none => simp [translate, hl] at htr
      | some i => rfl
    · exact tlbEntryOfPage_translate htr v
  | error which =>
    simp only [htr] at h
    cases hf : raiseException k which s addr r with
    | error stop => simp [hf, Except.map] at h
    | ok k₁ => simp [hf, Except.map] at h

/-! ## `copyout` -/

/-- The bytes `n` to `n + left` of the buffer are in user memory. -/
structure Copied (k : Kernel) (s vaddr : Nat) (buf : Nat → UInt8) (n left : Nat) (k' : Kernel) :
    Prop where
  accessed : Accessed k k'.mainMemory k'
  inside : ∀ i, n ≤ i → i < n + left → k'.mainMemory (k.physical s (vaddr + i)) = buf i
  outside : ∀ p, (∀ i, n ≤ i → i < n + left → p ≠ k.physical s (vaddr + i)) →
    k'.mainMemory p = k.mainMemory p

/-- **`copyout` when every page of the range is in the TLB.** -/
theorem copyoutFrom_hits {k : Kernel} {tid s vaddr : Nat} {sp : AddrSpace} (h : Ready k)
    (hrun : k.running = some (tid, s, sp)) (buf : Nat → UInt8) (rand : Nat → Nat) {n left : Nat}
    (hin : ∀ i, n ≤ i → i < n + left → InTLB k (vaddr + i)) :
    ∃ k', copyoutFrom s vaddr buf rand k n left = .ok (k', (n + left : Nat)) ∧
      Copied k s vaddr buf n left k' := by
  induction left generalizing k n with
  | zero =>
    refine ⟨k, rfl, .refl h, fun i hni hi => ?_, fun p _ => rfl⟩
    omega
  | succ left ih =>
    have hnow : InTLB k (vaddr + n) := hin n le_rfl (by omega)
    obtain ⟨k₁, hwrite, hacc⟩ := h.writeMem_hit hrun hnow (buf n) (rand n)
    obtain ⟨k', hrest, hcopied⟩ := ih (k := k₁) (n := n + 1) hacc.ready (by rw [hacc.running, hrun])
      fun i hni hi => (hacc.inTLB _).mpr (hin i (by omega) (by omega))
    have hphys := hacc.physical
    have hres : ∀ i, n ≤ i → i < n + (left + 1) → k.Resident s (vaddr + i) :=
      fun i hni hi => (h.translate_hit hrun (hin i hni hi) false).1
    refine ⟨k', ?_, hacc.trans hcopied.accessed, fun i hni hi => ?_, fun p hp => ?_⟩
    · rw [copyoutFrom, hwrite]
      have hlen : n + 1 + left = n + (left + 1) := by omega
      rw [← hlen]
      exact hrest
    · by_cases heq : i = n
      · -- the bytes after it are elsewhere
        subst heq
        rw [hcopied.outside]
        · rw [hacc.mainMemory, Function.update_self]
        · intro j hij hj
          rw [hphys]
          apply h.physical_ne (hres j (by omega) (by omega)) (hres i le_rfl (by omega))
          omega
      · rw [← hphys]
        exact hcopied.inside i (by omega) (by omega)
    · rw [hcopied.outside p fun i hni hi => by rw [hphys]; exact hp i (by omega) (by omega),
        hacc.mainMemory, Function.update_of_ne (hp n le_rfl (by omega))]

/-- `copyout` returns the length only when every access hit the TLB. -/
theorem copyoutFrom_inTLB {k k' : Kernel} {s vaddr : Nat} {buf : Nat → UInt8} {rand : Nat → Nat}
    {n left : Nat} (h : copyoutFrom s vaddr buf rand k n left = .ok (k', (n + left : Nat))) :
    ∀ i, n ≤ i → i < n + left → InTLB k (vaddr + i) := by
  induction left generalizing k n with
  | zero =>
    intro i hni hi
    omega
  | succ left ih =>
    rw [copyoutFrom] at h
    cases hw : writeMem k s (vaddr + n) (buf n) (rand n) with
    | error stop => simp [hw] at h
    | ok res =>
      obtain ⟨k₁, written⟩ := res
      cases written with
      | false =>
        -- the returned number is -1
        simp only [hw, Except.ok.injEq, Prod.mk.injEq] at h
        omega
      | true =>
        simp only [hw] at h
        obtain ⟨hnow, hentries⟩ := writeMem_inTLB hw
        have hlen : n + (left + 1) = n + 1 + left := by omega
        rw [hlen] at h
        intro i hni hi
        by_cases heq : i = n
        · rw [heq]
          exact hnow
        · have hi₁ := ih h i (by omega) (by omega)
          unfold InTLB at hi₁ ⊢
          rw [← hentries]
          exact hi₁

/-! ## `copyin` -/

/-- **`copyin` when every page of the range is in the TLB.** -/
theorem copyinFrom_hits {k : Kernel} {tid s vaddr : Nat} {sp : AddrSpace} (h : Ready k)
    (hrun : k.running = some (tid, s, sp)) (rand : Nat → Nat → Nat) (fuel : Nat) {n left : Nat}
    (hin : ∀ i, n ≤ i → i < n + left → InTLB k (vaddr + i)) :
    ∃ k', copyinFrom s vaddr rand (fuel + 1) k n left = .ok (k', some ((List.range' n left).map
      fun i => k.mainMemory (k.physical s (vaddr + i)))) := by
  induction left generalizing k n with
  | zero => exact ⟨k, rfl⟩
  | succ left ih =>
    obtain ⟨k₁, hread, hacc⟩ := h.readMem_hit hrun (hin n le_rfl (by omega)) (rand n fuel)
    obtain ⟨k', hrest⟩ := ih (k := k₁) (n := n + 1) hacc.ready (by rw [hacc.running, hrun])
      fun i hni hi => (hacc.inTLB _).mpr (hin i (by omega) (by omega))
    refine ⟨k', ?_⟩
    rw [copyinFrom, readUntil, hread]
    simp only [hrest, Except.map, Option.map_some, List.range'_succ, List.map_cons,
      hacc.mainMemory, hacc.physical]

/-- The running thread keeps running, in the same space. -/
theorem SameLayout.running {k k' : Kernel} (h : SameLayout k k') {tid s : Nat} {sp : AddrSpace}
    (hrun : k.running = some (tid, s, sp)) : ∃ sp', k'.running = some (tid, s, sp') := by
  obtain ⟨hcur, hthread, hs, -⟩ := running_some hrun
  have hshape := congrFun h.shape s
  rw [shape_some hs] at hshape
  obtain ⟨sp', hs', -⟩ := Option.map_eq_some_iff.mp hshape
  refine ⟨sp', ?_⟩
  unfold Kernel.running
  simp [h.currentThread, h.threads, hcur, hthread, hs']

/-- **The inner loop ends with its second attempt**, with the last byte stored. -/
theorem readUntil_returns {k k' : Kernel} {m : Flat} (h : Transparent k m) (hw : Writable k)
    {tid s addr : Nat} {sp : AddrSpace} (hrun : k.running = some (tid, s, sp))
    (hlive : exitedStack k s (addr / PageSize) = false) {rand : Nat → Nat} {fuel : Nat}
    {o : Option UInt8} (hread : readUntil s addr rand k (fuel + 2) = .ok (k', o)) :
    ∃ byte, o = some byte ∧ Transparent k' m ∧ Writable k' ∧ SameLayout k k' ∧
      ∀ b, m s addr = some b → byte = b := by
  -- an attempt that hits
  have hhit : ∀ {k : Kernel} {sp : AddrSpace} {r : Nat}, Transparent k m → Writable k →
      k.running = some (tid, s, sp) → exitedStack k s (addr / PageSize) = false →
      InTLB k addr → ∃ k' byte, readMem k s addr r = .ok (k', some byte) ∧ Transparent k' m ∧
        Writable k' ∧ SameLayout k k' ∧ ∀ b, m s addr = some b → byte = b := by
    intro k sp r h hw hrun hlive hin
    have hready : Ready k := ⟨h.sound, h.tlb, hw⟩
    obtain ⟨-, k', htr⟩ := hready.translate_hit hrun hin false
    refine ⟨k', _, by unfold readMem; rw [htr], h.shrinks (shrinks_translate htr),
      hw.translated htr, (tlbOnly_translate htr).sameLayout, fun b hb => ?_⟩
    exact h.load hrun htr hlive hb
  by_cases hin : InTLB k addr
  · obtain ⟨k₁, byte, hr, hres⟩ := hhit (r := rand (fuel + 1)) h hw hrun hlive hin
    rw [readUntil, hr] at hread
    cases hread
    exact ⟨byte, rfl, hres⟩
  · have hmiss : tlbEntryOfPage k (addr / PageSize) = none := by
      simpa [InTLB] using hin
    have hready : Ready k := ⟨h.sound, h.tlb, hw⟩
    rw [readUntil, readMem, translate, hmiss] at hread
    simp only [raiseException] at hread
    cases hm : handleTLBMiss k s addr (rand (fuel + 1)) with
    | error stop => simp [hm, Except.map] at hread
    | ok k₁ =>
      simp only [hm, Except.map] at hread
      have hlay := handleTLBMiss_sameLayout h.sound.spaces h.sound.frames hm
      obtain ⟨sp₁, hrun₁⟩ := hlay.running hrun
      obtain ⟨k₂, byte, hr, htrans, hw₂, hlay₂, hb⟩ := hhit (r := rand fuel)
        (h.missed hrun hmiss hlive hm) (hw.missed hm) hrun₁ (by rw [hlay.exitedStack]; exact hlive)
        (hready.missed_inTLB hm)
      rw [readUntil, hr] at hread
      cases hread
      exact ⟨byte, rfl, htrans, hw₂, hlay.trans hlay₂, hb⟩

theorem copyinFrom_returns {k k' : Kernel} {m : Flat} (h : Transparent k m) (hw : Writable k)
    {tid s vaddr : Nat} {sp : AddrSpace} (hrun : k.running = some (tid, s, sp))
    {rand : Nat → Nat → Nat} {fuel n left : Nat}
    (hlive : ∀ i, n ≤ i → i < n + left → exitedStack k s ((vaddr + i) / PageSize) = false)
    {o : Option (List UInt8)}
    (hcopy : copyinFrom s vaddr rand (fuel + 2) k n left = .ok (k', o)) :
    ∃ bytes, o = some bytes ∧ bytes.length = left ∧
      ∀ i < left, ∀ b, m s (vaddr + (n + i)) = some b → bytes[i]? = some b := by
  induction left generalizing k k' sp n o with
  | zero =>
    cases hcopy
    refine ⟨[], rfl, rfl, fun i hi => ?_⟩
    omega
  | succ left ih =>
    rw [copyinFrom] at hcopy
    cases hr : readUntil s (vaddr + n) (rand n) k (fuel + 2) with
    | error stop => simp [hr] at hcopy
    | ok res =>
      obtain ⟨k₁, read⟩ := res
      obtain ⟨byte, rfl, htrans, hw₁, hlay, hb⟩ :=
        readUntil_returns h hw hrun (hlive n le_rfl (by omega)) hr
      obtain ⟨sp₁, hrun₁⟩ := hlay.running hrun
      simp only [hr] at hcopy
      cases hrest : copyinFrom s vaddr rand (fuel + 2) k₁ (n + 1) left with
      | error stop => simp [hrest, Except.map] at hcopy
      | ok res =>
        obtain ⟨k₂, rest⟩ := res
        obtain ⟨bytes, rfl, hlen, hbytes⟩ := ih (n := n + 1) htrans hw₁ hrun₁
          (fun i hni hi => by rw [hlay.exitedStack]; exact hlive i (by omega) (by omega)) hrest
        simp only [hrest, Except.map, Option.map_some, Except.ok.injEq, Prod.mk.injEq] at hcopy
        refine ⟨byte :: bytes, hcopy.2.symm, by simp [hlen], fun i hi b hstored => ?_⟩
        cases i with
        | zero =>
          have hbyte := hb b hstored
          simp [hbyte]
        | succ i =>
          rw [List.getElem?_cons_succ]
          apply hbytes i (by omega) b
          rw [← hstored]
          congr 1
          omega

/-- **`copyin` needs no condition on the TLB.** In every run, with at least two attempts for
each byte, a `copyin` that the machine survives returns the length and, for each byte the
space has stored to, the last one. -/
theorem copyin_returns {useFIFO : Bool} {k k' : Kernel} {m : Flat}
    (h : Lib.Reachable (Lib.Restrict FlatStep LiveAccess) (Kernel.init useFIFO, Flat.empty) (k, m))
    {tid s : Nat} {sp : AddrSpace} (hrun : k.running = some (tid, s, sp)) {vaddr len : Nat}
    (hlive : ∀ i < len, exitedStack k s ((vaddr + i) / PageSize) = false)
    {rand : Nat → Nat → Nat} {fuel : Nat} {o : Option (Int × List UInt8)}
    (hcopy : copyin k s vaddr len rand (fuel + 2) = .ok (k', o)) :
    ∃ bytes, o = some ((len : Int), bytes) ∧ bytes.length = len ∧
      ∀ i < len, ∀ b, m s (vaddr + i) = some b → bytes[i]? = some b := by
  have hw : Writable k := by
    refine h.invariant (I := fun c => Writable c.1) (Writable.init useFIFO) ?_
    rintro c op c' hc ⟨⟨hen, event, hnext, -⟩, -⟩
    exact hc.stepSpec (next_spec hen hnext)
  unfold copyin at hcopy
  cases hfrom : copyinFrom s vaddr rand (fuel + 2) k 0 len with
  | error stop => simp [hfrom, Except.map] at hcopy
  | ok res =>
    obtain ⟨k₁, read⟩ := res
    obtain ⟨bytes, rfl, hlen, hbytes⟩ := copyinFrom_returns (transparent_of_reachable h) hw hrun
      (fun i _ hi => hlive i (by omega)) hfrom
    simp only [hfrom, Except.map, Option.map_some, Except.ok.injEq, Prod.mk.injEq] at hcopy
    refine ⟨bytes, hcopy.2.symm, hlen, fun i hi b hb => ?_⟩
    apply hbytes i hi b
    rw [Nat.zero_add]
    exact hb

/-! ## When the copies of a range succeed -/

/-- The copies of the range `vaddr`, ..., `vaddr + len - 1` work, for every buffer: `copyout`
returns the length and stores the buffer there and nothing anywhere else, `copyin` returns
the length and the user bytes, and the buffer after a `copyout`. -/
structure CopiesSucceed (k : Kernel) (s vaddr len : Nat) : Prop where
  copiedOut : ∀ (buf : Nat → UInt8) (rand : Nat → Nat), ∃ k',
    copyout k s vaddr len buf rand = .ok (k', (len : Int)) ∧
    (∀ i < len, k'.userByte s (vaddr + i) = some (buf i)) ∧
    (∀ t a, k.HasPage t (a / PageSize) → ¬ (t = s ∧ vaddr ≤ a ∧ a < vaddr + len) →
      k'.userByte t a = k.userByte t a) ∧
    ∀ (rand : Nat → Nat → Nat) (fuel : Nat), 2 ≤ fuel → ∃ k'',
      copyin k' s vaddr len rand fuel = .ok (k'', some ((len : Int), (List.range len).map buf))
  copiedIn : ∀ (rand : Nat → Nat → Nat) (fuel : Nat), 2 ≤ fuel → ∃ k' bytes,
    copyin k s vaddr len rand fuel = .ok (k', some ((len : Int), bytes)) ∧ bytes.length = len ∧
    ∀ i < len, ∀ b, k.userByte s (vaddr + i) = some b → bytes[i]? = some b

/-- The user byte of a resident page is the one in its frame. -/
theorem userByte_resident {k : Kernel} {s addr : Nat} (h : k.Resident s addr) :
    k.userByte s addr = some (k.mainMemory (k.physical s addr)) := by
  obtain ⟨hp, hv, hm⟩ := h
  cases hs : k.spaces s with
  | none => simp [Kernel.HasPage, Kernel.numPages, hs] at hp
  | some sp =>
    simp only [Kernel.page, hs] at hv hm
    simp [Kernel.userByte, Kernel.physical, Kernel.page, hs, hv, hm]

/-- A byte that no access touched. -/
theorem userByte_accessed {k k' : Kernel} {mem : Nat → UInt8} (h : Accessed k mem k') {t a : Nat}
    (hp : k.HasPage t (a / PageSize))
    (hmem : k.Resident t a → mem (k.physical t a) = k.mainMemory (k.physical t a)) :
    k'.userByte t a = k.userByte t a := by
  unfold Kernel.userByte
  rw [h.spaces, h.mainMemory, h.swapFile]
  cases hs : k.spaces t with
  | none => rfl
  | some sp =>
    simp only [Option.bind_some]
    cases hloc : (sp.pageTable (a / PageSize)).location with
    | MAIN =>
      cases hv : (sp.pageTable (a / PageSize)).valid with
      | true =>
        have hbyte := hmem ⟨hp, by simp [Kernel.page, hs, hv], by simp [Kernel.page, hs, hloc]⟩
        simp only [Kernel.physical, Kernel.page, hs] at hbyte
        simp only [hbyte]
      | false => rfl
    | SWAP | EXEC | VOID => rfl

/-- **User-buffer copies** of a range by the running thread succeed exactly when every page
of the range is in the TLB when they start. -/
theorem copies_succeed_iff {useFIFO : Bool} {k : Kernel}
    (h : Lib.Reachable Step (Kernel.init useFIFO) k) {tid s : Nat} {sp : AddrSpace}
    (hrun : k.running = some (tid, s, sp)) (vaddr len : Nat) :
    CopiesSucceed k s vaddr len ↔ ∀ i < len, InTLB k (vaddr + i) := by
  have hready := ready_of_reachable h
  constructor
  · intro hcopies
    obtain ⟨k', hout, -⟩ := hcopies.copiedOut (fun _ => 0) (fun _ => 0)
    have hfrom : copyoutFrom s vaddr (fun _ => 0) (fun _ => 0) k 0 len =
        .ok (k', ((0 + len : Nat) : Int)) := by
      rw [Nat.zero_add]
      exact hout
    intro i hi
    apply copyoutFrom_inTLB hfrom i (Nat.zero_le i)
    omega
  · intro hin
    have hin₀ : ∀ i, 0 ≤ i → i < 0 + len → InTLB k (vaddr + i) := fun i _ hi => hin i (by omega)
    have hres : ∀ i < len, k.Resident s (vaddr + i) :=
      fun i hi => (hready.translate_hit hrun (hin i hi) false).1
    refine ⟨fun buf rand => ?_, fun rand fuel hfuel => ?_⟩
    · obtain ⟨k', hout, hcopied⟩ := copyoutFrom_hits hready hrun buf rand hin₀
      rw [Nat.zero_add] at hout
      have hacc := hcopied.accessed
      have hpage := hacc.page
      have hphys := hacc.physical
      refine ⟨k', hout, fun i hi => ?_, fun t a hp hne => ?_, fun rand fuel hfuel => ?_⟩
      · have hres' : k'.Resident s (vaddr + i) := by
          have hr := hres i hi
          unfold Kernel.Resident Kernel.HasPage Kernel.numPages at hr ⊢
          rw [hpage, hacc.spaces]
          exact hr
        rw [userByte_resident hres', hphys, hcopied.inside i (Nat.zero_le i) (by omega)]
      · refine userByte_accessed hacc hp fun hrt => ?_
        apply hcopied.outside
        intro i _ hi
        apply hready.physical_ne (hres i (by omega)) hrt
        rintro ⟨rfl, rfl⟩
        exact hne ⟨rfl, by omega, by omega⟩
      · obtain ⟨more, rfl⟩ : ∃ more, fuel = more + 1 := ⟨fuel - 1, by omega⟩
        have hin' : ∀ i, 0 ≤ i → i < 0 + len → InTLB k' (vaddr + i) :=
          fun i hi₀ hi => (hacc.inTLB _).mpr (hin₀ i hi₀ hi)
        obtain ⟨k'', hcopy⟩ :=
          copyinFrom_hits hacc.ready (by rw [hacc.running, hrun]) rand more hin'
        refine ⟨k'', ?_⟩
        have hbytes : ((List.range' 0 len).map fun i => k'.mainMemory (k'.physical s (vaddr + i))) =
            (List.range len).map buf := by
          rw [← List.range_eq_range']
          apply List.map_congr_left
          intro i hi
          rw [hphys]
          exact hcopied.inside i (Nat.zero_le i) (by simpa using hi)
        rw [copyin, hcopy, hbytes]
        rfl
    · obtain ⟨more, rfl⟩ : ∃ more, fuel = more + 1 := ⟨fuel - 1, by omega⟩
      obtain ⟨k', hcopy⟩ := copyinFrom_hits hready hrun rand more hin₀
      refine ⟨k', _, by rw [copyin, hcopy]; rfl, by simp, fun i hi b hb => ?_⟩
      rw [userByte_resident (hres i hi)] at hb
      simp [hi, hb]

/-- A process that has touched its first page can read three bytes into it. -/
theorem copies_succeed_touched : ∃ k tid sp, Lib.Reachable Step (Kernel.init true) k ∧
    k.running = some (tid, 0, sp) ∧ CopiesSucceed k 0 5 3 := by
  have hexec : (Lib.execute step? (Kernel.init true)
      [.create (.blank PageSize), .load 0 0]).any (fun k =>
        decide (k.running.map (fun c => (c.1, c.2.1)) = some (0, 0) ∧
          ∀ i < (3 : Nat), InTLB k (5 + i))) = true := by
    decide +kernel
  obtain ⟨k, hk, hp⟩ := (Option.any_eq_true _ _).mp hexec
  obtain ⟨hrun, hin⟩ := of_decide_eq_true hp
  obtain ⟨⟨tid, s, sp⟩, hrun, heq⟩ := Option.map_eq_some_iff.mp hrun
  cases heq
  have hreach : Lib.Reachable Step (Kernel.init true) k :=
    ⟨_, Lib.path_of_execute (fun _ _ _ => step_of_step?) hk⟩
  exact ⟨k, 0, sp, hreach, hrun, (copies_succeed_iff hreach hrun 5 3).mpr hin⟩

/-- A process that has not touched its first page yet reads a byte into it: `copyout`
returns -1. -/
theorem copyout_gives_up : ∃ k tid sp, Lib.Reachable Step (Kernel.init true) k ∧
    k.running = some (tid, 0, sp) ∧ k.HasPage 0 0 ∧
    (∃ k', copyout k 0 0 1 (fun _ => 7) (fun _ => 0) = .ok (k', -1)) ∧
    ¬ CopiesSucceed k 0 0 1 := by
  have hexec : (Lib.execute step? (Kernel.init true) [.create (.blank PageSize)]).any
      (fun k => decide (k.running.map (fun c => (c.1, c.2.1)) = some (0, 0) ∧ k.HasPage 0 0 ∧
        (copyout k 0 0 1 (fun _ => 7) (fun _ => 0)).toOption.map Prod.snd = some (-1))) = true := by
    decide +kernel
  obtain ⟨k, hk, hp⟩ := (Option.any_eq_true _ _).mp hexec
  obtain ⟨hrun, hpage, hout⟩ := of_decide_eq_true hp
  obtain ⟨⟨tid, s, sp⟩, hrun, heq⟩ := Option.map_eq_some_iff.mp hrun
  cases heq
  cases hres : copyout k 0 0 1 (fun _ => 7) (fun _ => 0) with
  | error stop => simp [hres, Except.toOption] at hout
  | ok res =>
    obtain ⟨k', n⟩ := res
    simp only [hres, Except.toOption, Option.map_some, Option.some.injEq] at hout
    subst hout
    refine ⟨k, 0, sp, ⟨_, Lib.path_of_execute (fun _ _ _ => step_of_step?) hk⟩, hrun, hpage,
      ⟨k', hres⟩, fun hcopies => ?_⟩
    obtain ⟨k₁, hok, -⟩ := hcopies.copiedOut (fun _ => 7) (fun _ => 0)
    rw [hres] at hok
    cases hok

end Nachos.VM

import Nachos.VM.Swap
import Nachos.VM.TLB

/-!
# Demand paging is transparent

The abstract memory is flat: for every space a byte per address, `none` where the space has
not stored yet (`Flat`). The machine runs beside it, and every completed store is recorded
there. `Transparent` is the simulation relation: a byte of the flat memory is where the
tables say, in a frame that counts as dirty or in a swap slot, so that no eviction can drop
it.

Accesses to the stack of an exited thread are outside the relation (`LiveAccess`): their
pages have been given back.
-/

namespace Nachos.VM

/-! ## The flat memory -/

/-- The last byte each space stored at each address. -/
def Flat : Type := Nat → Nat → Option UInt8

/-- Nothing stored yet. -/
def Flat.empty : Flat := fun _ _ => none

/-- A completed store is recorded. -/
def Flat.record (m : Flat) : Event → Flat
  | .stored s addr value => fun t a => if t = s ∧ a = addr then some value else m t a
  | .loaded _ _ _ => m
  | .quiet => m

/-- A step of the machine beside the flat memory. -/
def FlatStep (c : Kernel × Flat) (op : Op) (c' : Kernel × Flat) : Prop :=
  enabled c.1 op = true ∧ ∃ event, next c.1 op = .ok (c'.1, event) ∧ c'.2 = c.2.record event

/-- The operation is no access to the stack of an exited thread. -/
def LiveAccess (c : Kernel × Flat) (op : Op) : Prop :=
  (op.address.any fun addr => c.1.running.any fun (_, s, _) =>
    exitedStack c.1 s (addr / PageSize)) = false

instance (c : Kernel × Flat) (op : Op) : Decidable (LiveAccess c op) :=
  inferInstanceAs (Decidable (_ = _))

/-! ## Where a stored byte is -/

/-- The byte at `addr` of the space is `b`, and no eviction will lose it. -/
def Holds (k : Kernel) (s addr : Nat) (b : UInt8) : Prop :=
  (k.page s (addr / PageSize)).valid = true ∧
  (((k.page s (addr / PageSize)).location = .MAIN ∧
      k.mainMemory ((k.page s (addr / PageSize)).physicalPage.toNat * PageSize + addr % PageSize)
        = b ∧
      DirtyFrame k (k.page s (addr / PageSize)).physicalPage.toNat) ∨
   ((k.page s (addr / PageSize)).location = .SWAP ∧
      (k.page s (addr / PageSize)).dirty = true ∧
      k.swapFile ((k.page s (addr / PageSize)).byteOffset.toNat + addr % PageSize) = b))

/-- The two addresses of a byte in a frame. -/
theorem frame_address (f j : Nat) : f * PageSize + j = PageSize * f + j := by
  rw [Nat.mul_comm]

/-- Two bytes of resident pages are at different physical addresses. -/
theorem FrameInv.byte_ne {k : Kernel} (h : FrameInv none k) {s addr f t a : Nat}
    (hp : k.HasPage s (addr / PageSize)) (hv : (k.page s (addr / PageSize)).valid = true)
    (hm : (k.page s (addr / PageSize)).location = .MAIN)
    (hpp : (k.page s (addr / PageSize)).physicalPage = (f : Int))
    (hpt : k.HasPage t (a / PageSize)) (hvt : (k.page t (a / PageSize)).valid = true)
    (hmt : (k.page t (a / PageSize)).location = .MAIN) (hne : ¬ (t = s ∧ a = addr)) :
    (k.page t (a / PageSize)).physicalPage.toNat * PageSize + a % PageSize ≠
      f * PageSize + addr % PageSize := by
  obtain ⟨g, -, hpg, -, hgs, hgp⟩ := h.pageFrame hpt hvt hmt
  obtain ⟨g', -, hpg', -, hgs', hgp'⟩ := h.pageFrame hp hv hm
  have hgf : g' = f := by exact_mod_cast hpg'.symm.trans hpp
  subst hgf
  rw [hpg, Int.toNat_natCast]
  intro heq
  have hdiv : g = g' ∧ a % PageSize = addr % PageSize := by
    have h1 : a % 128 < 128 := Nat.mod_lt _ (by decide)
    have h2 : addr % 128 < 128 := Nat.mod_lt _ (by decide)
    change g * 128 + a % 128 = g' * 128 + addr % 128 at heq
    change g = g' ∧ a % 128 = addr % 128
    omega
  obtain ⟨rfl, hoff⟩ := hdiv
  refine hne ⟨hgs.symm.trans hgs', ?_⟩
  rw [← Nat.div_add_mod a PageSize, ← Nat.div_add_mod addr PageSize, hoff, hgp.symm.trans hgp']

namespace Holds

variable {k k' : Kernel} {s addr : Nat} {b : UInt8}

theorem shrinks (h : Holds k s addr b) (ht : TLBOnly k k')
    (hd : ∀ f, DirtyFrame k f → DirtyFrame k' f) : Holds k' s addr b := by
  unfold Holds at h ⊢
  rw [ht.page, ht.mainMemory, ht.swapFile]
  refine ⟨h.1, h.2.imp (fun hm => ⟨hm.1, hm.2.1, hd _ hm.2.2⟩) id⟩

theorem congr (h : Holds k s addr b)
    (hpage : k'.page s (addr / PageSize) = k.page s (addr / PageSize))
    (hmem : k'.mainMemory = k.mainMemory) (hfile : k'.swapFile = k.swapFile)
    (htlb : k'.tlb = k.tlb) (hIPT : k'.IPT = k.IPT) : Holds k' s addr b := by
  unfold Holds DirtyFrame at h ⊢
  rw [hpage, hmem, hfile, htlb, hIPT]
  exact h

/-- Finding a frame, whatever it evicts. -/
theorem findFrame (h : Holds k s addr b) (hf : FrameInv none k) (hw : SwapInv k) (ht : TLBInv k)
    (hp : k.HasPage s (addr / PageSize)) {r ppn : Nat}
    (hfind : VM.findFrame k r = .ok (k', ppn)) : Holds k' s addr b := by
  obtain ⟨hvalid, ⟨hm, hb, hd⟩ | ⟨hloc, hd, hb⟩⟩ := h
  · rcases findFrame_spec hfind with ⟨m, -, rfl⟩ | ⟨-, hfull⟩
    · exact ⟨hvalid, .inl ⟨hm, hb, hd⟩⟩
    · obtain ⟨-, hlt, hv, he⟩ := handleMemoryFull_spec hfull
      have hent := hf.entry ppn hlt hv
      have he := he hent.1
      have hdrop := shrinks_dropFrame k ppn
      have hmem : k'.mainMemory = k.mainMemory := by rw [he.rest]; exact hdrop.mainMemory
      have htlb : k'.tlb = (dropFrameFromTLB k ppn).tlb := by rw [he.rest]
      by_cases hvic : s = (k.IPT ppn).PID ∧ addr / PageSize = (k.IPT ppn).virtualPage
      · -- the page is the victim: it is dirty, so it was written out
        have hpp : (k.page s (addr / PageSize)).physicalPage = (ppn : Int) := by
          rw [hvic.1, hvic.2]; exact hent.2.2.2
        rw [hpp, Int.toNat_natCast] at hb hd
        have hdirty := ht.dropFrame_dirty hd
        cases he.wentTo with
        | exec hclean => rw [hclean] at hdirty; cases hdirty
        | swap slot m _ _ _ hfile hpage =>
          rw [hdrop.PID, hdrop.virtualPage, ← hvic.1, ← hvic.2, hdrop.page] at hpage
          rw [Holds, hpage, hfile]
          refine ⟨hvalid, .inr ⟨rfl, rfl, ?_⟩⟩
          have hin : slot * PageSize ≤ slot * PageSize + addr % PageSize ∧
              slot * PageSize + addr % PageSize < slot * PageSize + PageSize :=
            ⟨Nat.le_add_right _ _, Nat.add_lt_add_left (Nat.mod_lt _ (by decide)) _⟩
          simp only [Int.toNat_natCast, blit, if_pos hin, Nat.add_sub_cancel_left]
          rw [hdrop.mainMemory, ← frame_address]
          exact hb
      · have hpage : k'.page s (addr / PageSize) = k.page s (addr / PageSize) := by
          rw [he.other _ _ (by rw [hdrop.PID, hdrop.virtualPage]; exact hvic), hdrop.page]
        obtain ⟨g, hg, hpp, hgv, hgs, hgp⟩ := hf.pageFrame hp hvalid hm
        have hne : g ≠ ppn := by
          rintro rfl
          exact hvic ⟨hgs.symm, hgp.symm⟩
        rw [Holds, hpage, hmem]
        refine ⟨hvalid, .inl ⟨hm, hb, ?_⟩⟩
        rw [hpp, Int.toNat_natCast] at hd ⊢
        refine (hdrop.stillDirty g hd).congr htlb ?_
        rw [he.IPT, if_neg hne]
  · obtain ⟨slot, -, hh, -⟩ := hw.slot s _ ⟨hp, hvalid, hloc⟩
    obtain ⟨hpage, hfile⟩ := hw.findFrame_keeps hf hfind hh
    rw [Holds, hpage]
    refine ⟨hvalid, .inr ⟨hloc, hd, ?_⟩⟩
    rw [hh.2, Int.toNat_natCast] at hb ⊢
    rw [hfile _ (Nat.mod_lt _ (by decide))]
    exact hb

/-- Bringing a page in: its own bytes come from swap, those of other pages stay. -/
theorem faultedIn {t v r ppn : Nat} {k₁ k₂ k₃ : Kernel} {sp : AddrSpace}
    (hin : FaultedIn k t v r k₁ ppn sp k₂ k₃) (hp : k₁.HasPage s (addr / PageSize))
    (h : Holds k₁ s addr b) : Holds k₃ s addr b := by
  have hload := loadPage_cases hin.space hin.load
  have hk₂ := loadPage_same hin.load
  have hpage₂ : k₂.page = k₁.page := by rw [hk₂]; rfl
  have hfile : k₃.swapFile = k₁.swapFile := by rw [hin.recorded.rest, hk₂]
  have hmem : k₃.mainMemory = k₂.mainMemory := by rw [hin.recorded.rest]
  have htlb : k₃.tlb = k₁.tlb := by rw [hin.recorded.rest, hk₂]
  have hIPT₂ : k₂.IPT = k₁.IPT := by rw [hk₂]
  have hpage₃ := hin.recorded.page s (addr / PageSize)
  rw [hpage₂] at hpage₃
  obtain ⟨hvalid, hwhere⟩ := h
  by_cases hself : s = t ∧ addr / PageSize = v
  · obtain ⟨rfl, rfl⟩ := hself
    rw [if_pos ⟨rfl, rfl⟩] at hpage₃
    obtain ⟨hm, -⟩ | ⟨hloc, hd, hb⟩ := hwhere
    · -- a page in memory has an IPT entry, which the fault did not find
      obtain ⟨f, hf, hfv, hfs, hfp⟩ := hin.foundInv.page s _ hp hvalid hm
      exact absurd hfp (hin.absent f hf hfv hfs)
    · obtain ⟨-, hread⟩ | ⟨hnot, -⟩ := hload
      · rw [Holds, hpage₃, hmem]
        refine ⟨rfl, .inl ⟨rfl, ?_, .inl ?_⟩⟩
        · have hrange : PageSize * ppn ≤ PageSize * ppn + addr % PageSize ∧
              PageSize * ppn + addr % PageSize < PageSize * ppn + PageSize :=
            ⟨Nat.le_add_right _ _, Nat.add_lt_add_left (Nat.mod_lt _ (by decide)) _⟩
          rw [Int.toNat_natCast, frame_address, hread]
          simp only [readPageFromSwapToPPN, blit, if_pos hrange, Nat.add_sub_cancel_left]
          exact hb
        · rw [Int.toNat_natCast, hin.recorded.IPT, if_pos rfl, hpage₂]
          exact hd
      · exact absurd hloc hnot
  · rw [if_neg hself] at hpage₃
    rw [Holds, hpage₃, hmem, hfile]
    refine ⟨hvalid, ?_⟩
    obtain ⟨hm, hb, hd⟩ | hs := hwhere
    · obtain ⟨g, hg, hpp, hgv, -, -⟩ := hin.foundInv.pageFrame hp hvalid hm
      have hne : g ≠ ppn := by
        rintro rfl
        rw [(hin.foundInv.taken g rfl).2.2] at hgv
        cases hgv
      rw [hpp, Int.toNat_natCast] at hb hd ⊢
      refine .inl ⟨hm, ?_, hd.congr htlb ?_⟩
      · have hout : ¬ (PageSize * ppn ≤ g * PageSize + addr % PageSize ∧
            g * PageSize + addr % PageSize < PageSize * ppn + PageSize) := by
          have hmod : addr % 128 < 128 := Nat.mod_lt _ (by decide)
          change ¬ (128 * ppn ≤ g * 128 + addr % 128 ∧ g * 128 + addr % 128 < 128 * ppn + 128)
          omega
        obtain ⟨-, hread⟩ | ⟨-, -, hkeep⟩ := hload
        · rw [hread]
          simp only [readPageFromSwapToPPN, blit, if_neg hout]
          exact hb
        · rw [hkeep _ hout]
          exact hb
      · rw [hin.recorded.IPT, if_neg hne, hIPT₂]
    · exact .inr hs

/-- Giving another page back. -/
theorem freed (h : Holds k s addr b) {t v : Nat} (hne : ¬ (s = t ∧ addr / PageSize = v))
    (hfree : PageFreed k t v k') : Holds k' s addr b := by
  obtain ⟨hvalid, hwhere⟩ := h
  have hmem : k'.mainMemory = k.mainMemory := by rw [hfree.rest]
  have hfile : k'.swapFile = k.swapFile := by rw [hfree.rest]
  have htlb : k'.tlb = k.tlb := by rw [hfree.rest]
  rw [Holds, hfree.other _ _ hne, hmem, hfile]
  refine ⟨hvalid, hwhere.imp (fun hm => ⟨hm.1, hm.2.1, hm.2.2.congr htlb ?_⟩) id⟩
  by_cases hres : (k.page t v).valid = true ∧ (k.page t v).location = .MAIN
  · rw [(hfree.main hres.1 hres.2).2.1]
    split <;> rfl
  · rw [(hfree.notMain hres).2.1]

end Holds

/-! ## The simulation relation -/

/-- The machine `k` holds the bytes of the flat memory `m`. -/
structure Transparent (k : Kernel) (m : Flat) : Prop where
  sound : Sound k
  swap : SwapInv k
  tlb : TLBInv k
  threads : ∀ tid space, k.threads tid = some space → tid < k.threadIDCount
  noStale : ∀ s v, k.HasPage s v → exitedStack k s v = false → ¬ StaleSlot k s v
  known : ∀ s addr b, m s addr = some b → s < k.spaceCount ∧
    (k.shape s = none ∨ k.HasPage s (addr / PageSize))
  holds : ∀ s addr b, m s addr = some b → k.HasPage s (addr / PageSize) →
    exitedStack k s (addr / PageSize) = false → Holds k s addr b

theorem exitedStack_shape (k : Kernel) (s v : Nat) : exitedStack k s v =
    (k.shape s).any fun sp => (List.range k.threadIDCount).any fun tid =>
      (k.threads tid).isNone && (sp.threadTable tid).any fun pages => decide (v ∈ pages) := by
  unfold exitedStack Kernel.shape
  cases k.spaces s <;> rfl

theorem SameLayout.exitedStack {k k' : Kernel} (h : SameLayout k k') (s v : Nat) :
    exitedStack k' s v = exitedStack k s v := by
  rw [exitedStack_shape, exitedStack_shape, h.shape, h.threads, h.threadIDCount]

namespace Transparent

variable {k k' : Kernel} {m : Flat}

theorem init (useFIFO : Bool) : Transparent (Kernel.init useFIFO) Flat.empty where
  sound := Sound.init useFIFO
  swap := SwapInv.init useFIFO
  tlb := tlbInv_of_empty fun _ _ => rfl
  threads tid space h := by
    simp only [Kernel.init, Function.update_apply] at h ⊢
    split at h
    · omega
    · cases h
  noStale s v hp := by simp [Kernel.HasPage, Kernel.numPages, Kernel.init] at hp
  known s addr b h := by cases h
  holds s addr b h := by cases h

/-- An operation that leaves the spaces and threads as they are: what has to be shown for
the bytes. -/
theorem sameLayout (h : Transparent k m) (hl : SameLayout k k') (hs : Sound k') (hw : SwapInv k')
    (ht : TLBInv k') (hstale : ∀ s v, k.HasPage s v → ¬ StaleSlot k s v → ¬ StaleSlot k' s v)
    (hh : ∀ s addr b, k.HasPage s (addr / PageSize) → Holds k s addr b → Holds k' s addr b) :
    Transparent k' m where
  sound := hs
  swap := hw
  tlb := ht
  threads tid space := by rw [hl.threads, hl.threadIDCount]; exact h.threads tid space
  noStale s v hp hex := by
    rw [hl.exitedStack] at hex
    have hp := (hl.hasPage s v).mp hp
    exact hstale s v hp (h.noStale s v hp hex)
  known s addr b hm := by
    rw [hl.spaceCount, hl.shape, hl.hasPage]
    exact h.known s addr b hm
  holds s addr b hm hp hex := by
    rw [hl.exitedStack] at hex
    have hp := (hl.hasPage s _).mp hp
    exact hh s addr b hp (h.holds s addr b hm hp hex)

theorem shrinks (h : Transparent k m) (ht : TLBShrinks k k') : Transparent k' m :=
  h.sameLayout ht.sameLayout (h.sound.tlbOnly ht.toTLBOnly) (h.swap.tlbOnly ht.toTLBOnly)
    (h.tlb.shrinks ht) (fun s v _ hs => by unfold StaleSlot at hs ⊢; rw [ht.page]; exact hs)
    (fun _ _ _ _ hh => hh.shrinks ht.toTLBOnly ht.stillDirty)

/-- The running space and the page of a TLB hit. -/
theorem hit (h : Transparent k m) {tid s addr pa : Nat} {sp : AddrSpace} {w : Bool}
    (hrun : k.running = some (tid, s, sp)) (htr : translate k addr w = .ok (k', pa)) :
    ∃ f < NumPhysPages, pa = f * PageSize + addr % PageSize ∧ k.HasPage s (addr / PageSize) ∧
      (k.page s (addr / PageSize)).valid = true ∧ (k.page s (addr / PageSize)).location = .MAIN ∧
      (k.page s (addr / PageSize)).physicalPage = (f : Int) ∧ (w = true → DirtyFrame k' f) := by
  obtain ⟨i, f, hi, hv, hvp, hpp, hf, hpa, hk'⟩ := translate_ok htr
  obtain ⟨g, -, hpg, hgv, hcur, hvg⟩ := h.tlb.entry i hi hv
  have hfg : g = f := by exact_mod_cast hpg.symm.trans hpp
  subst hfg
  rw [(running_some hrun).2.2.2] at hcur
  have hent := h.sound.frames.entry g hf hgv
  rw [← Option.some.inj hcur, ← hvg, hvp] at hent
  refine ⟨g, hf, hpa, hent.1, hent.2.1, hent.2.2.1, hent.2.2.2, fun hw => .inr ⟨i, hi, ?_⟩⟩
  rw [hk', modTLB_tlb, if_pos rfl]
  exact ⟨hv, hpp, by simp [hw]⟩

/-- **A completed load returns the byte of the flat memory.** -/
theorem load (h : Transparent k m) {tid s addr pa : Nat} {sp : AddrSpace}
    (hrun : k.running = some (tid, s, sp)) (htr : translate k addr false = .ok (k', pa))
    (hlive : exitedStack k s (addr / PageSize) = false) {b : UInt8} (hb : m s addr = some b) :
    k'.mainMemory pa = b := by
  obtain ⟨f, -, rfl, hp, -, hm, hpp, -⟩ := h.hit hrun htr
  rw [(tlbOnly_translate htr).mainMemory]
  obtain ⟨-, ⟨-, hbyte, -⟩ | ⟨hloc, -⟩⟩ := h.holds s addr b hb hp hlive
  · rw [hpp, Int.toNat_natCast] at hbyte
    exact hbyte
  · rw [hm] at hloc
    cases hloc

/-- A completed store changes one byte of one frame, and of the flat memory. -/
theorem store (h : Transparent k m) {tid s addr pa : Nat} {sp : AddrSpace} {value : UInt8}
    (hrun : k.running = some (tid, s, sp)) (htr : translate k addr true = .ok (k', pa)) :
    Transparent { k' with mainMemory := Function.update k'.mainMemory pa value }
      (m.record (.stored s addr value)) := by
  obtain ⟨f, hf, rfl, hp, hvalid, hm, hpp, hd⟩ := h.hit hrun htr
  have hsh := shrinks_translate htr
  have h' := h.shrinks hsh
  refine ⟨h'.sound.threads rfl, h'.swap.congr rfl rfl rfl, ?_, h'.threads, h'.noStale, ?_, ?_⟩
  · exact h'.tlb.congr rfl (fun _ hc => hc) (fun _ _ _ _ _ => rfl)
  · intro t a b hb
    simp only [Flat.record] at hb
    split at hb
    · rename_i heq
      obtain ⟨rfl, rfl⟩ := heq
      refine ⟨?_, .inr ((hsh.hasPage t _).mpr hp)⟩
      by_contra hge
      have hnone := h'.sound.spaces.fresh t (Nat.le_of_not_lt hge)
      rw [hsh.spaces, (running_some hrun).2.2.1] at hnone
      cases hnone
    · exact h'.known t a b hb
  · intro t a b hb hpt hex
    simp only [Flat.record] at hb
    split at hb
    · rename_i heq
      obtain ⟨rfl, rfl⟩ := heq
      cases hb
      refine ⟨?_, .inl ⟨?_, ?_, ?_⟩⟩
      · change (k'.page t (a / PageSize)).valid = true
        rw [hsh.page]; exact hvalid
      · change (k'.page t (a / PageSize)).location = .MAIN
        rw [hsh.page]; exact hm
      · change Function.update k'.mainMemory _ value
          ((k'.page t (a / PageSize)).physicalPage.toNat * PageSize + a % PageSize) = value
        rw [hsh.page, hpp, Int.toNat_natCast, Function.update_self]
      · change DirtyFrame k' (k'.page t (a / PageSize)).physicalPage.toNat
        rw [hsh.page, hpp, Int.toNat_natCast]
        exact hd rfl
    · -- another byte of memory is at another physical address
      rename_i hne
      obtain ⟨hv, ⟨hmain, hbyte, hdirty⟩ | hswap⟩ := h'.holds t a b hb hpt hex
      · refine ⟨hv, .inl ⟨hmain, ?_, hdirty⟩⟩
        refine (Function.update_of_ne ?_ _ _).trans hbyte
        have hpage' : k'.page = k.page := hsh.page
        exact h'.sound.frames.byte_ne ((hsh.hasPage s _).mpr hp) (by rw [hpage']; exact hvalid)
          (by rw [hpage']; exact hm) (by rw [hpage']; exact hpp) hpt hv hmain hne
      · exact ⟨hv, .inr hswap⟩

/-! ### Faults -/

theorem notStale_faultedIn {t v r ppn : Nat} {k₁ k₂ k₃ : Kernel} {sp : AddrSpace}
    (hf : FrameInv none k) (hin : FaultedIn k t v r k₁ ppn sp k₂ k₃) {s w : Nat}
    (h : ¬ StaleSlot k s w) : ¬ StaleSlot k₃ s w := by
  have hpage₂ : k₂.page = k₁.page := by rw [loadPage_same hin.load]; rfl
  rintro ⟨hv, hloc⟩
  rw [hin.recorded.page] at hv hloc
  split at hloc
  · cases hloc
  · rename_i hne
    rw [if_neg hne, hpage₂] at hv
    rw [hpage₂] at hloc
    -- an eviction does not make a page invalid
    rcases findFrame_spec hin.found with ⟨fb, -, rfl⟩ | ⟨-, hfull⟩
    · exact h ⟨hv, hloc⟩
    · obtain ⟨-, hlt, hvalid, he⟩ := handleMemoryFull_spec hfull
      have hent := hf.entry ppn hlt hvalid
      have he := he hent.1
      have hdrop := tlbOnly_dropFrame k ppn
      by_cases hvic : s = (k.IPT ppn).PID ∧ w = (k.IPT ppn).virtualPage
      · have hstill : (k₁.page s w).valid = true := by
          cases he.wentTo with
          | swap slot mb _ _ _ _ hpage =>
            rw [hdrop.PID, hdrop.virtualPage, ← hvic.1, ← hvic.2, hdrop.page] at hpage
            rw [hpage, hvic.1, hvic.2]
            exact hent.2.1
          | exec _ _ _ hpage =>
            rw [hdrop.PID, hdrop.virtualPage, ← hvic.1, ← hvic.2, hdrop.page] at hpage
            rw [hpage, hvic.1, hvic.2]
            exact hent.2.1
        rw [hstill] at hv
        cases hv
      · rw [he.other s w (by rw [hdrop.PID, hdrop.virtualPage]; exact hvic), hdrop.page] at hv hloc
        exact h ⟨hv, hloc⟩

theorem missed (h : Transparent k m) {tid s addr r : Nat} {sp : AddrSpace}
    (hrun : k.running = some (tid, s, sp)) (hmiss : tlbEntryOfPage k (addr / PageSize) = none)
    (hlive : exitedStack k s (addr / PageSize) = false)
    (hm : handleTLBMiss k s addr r = .ok k') : Transparent k' m := by
  have hs' := h.sound.missed hm
  have hlay := handleTLBMiss_sameLayout h.sound.spaces h.sound.frames hm
  have htlb := h.tlb.missed h.sound (running_some hrun).2.2.2 hmiss hm
  rcases handleTLBMiss_cases h.sound.spaces h.sound.frames hm with
    ⟨ppn, hl, rfl⟩ | ⟨k₁, ppn, sp', k₂, k₃, hl, hin, rfl⟩
  · have ht := tlbOnly_populate k ppn
    exact h.sameLayout hlay hs' (h.swap.tlbOnly ht) htlb
      (fun s v _ hst => by unfold StaleSlot at hst ⊢; rw [ht.page]; exact hst)
      (fun _ _ _ _ hh => hh.shrinks ht fun _ => populate_stillDirty)
  · have ht := tlbOnly_populate k₃ ppn
    have hp : k.HasPage s (addr / PageSize) := (hin.foundLayout.hasPage s _).mp hin.page
    have hstale := h.noStale s _ hp hlive
    refine h.sameLayout hlay hs' ((h.swap.faultedIn h.sound.frames hstale hin).tlbOnly ht) htlb
      (fun t v _ hst => ?_) fun t a b hpt hh => ?_
    · have := notStale_faultedIn h.sound.frames hin hst
      unfold StaleSlot at this ⊢
      rw [ht.page]
      exact this
    · have h₁ := hh.findFrame h.sound.frames h.swap h.tlb hpt hin.found
      exact (h₁.faultedIn hin ((hin.foundLayout.hasPage t _).mpr hpt)).shrinks ht
        fun _ => populate_stillDirty

end Transparent

/-! ### Threads -/

/-- Threads finish and never come back, so exited stacks stay exited. -/
theorem exitedStack_mono {k k' : Kernel} {s v : Nat} (h : exitedStack k' s v = false)
    (hspace : k'.shape s = k.shape s) (hcount : k.threadIDCount ≤ k'.threadIDCount)
    (hthreads : ∀ tid < k.threadIDCount, k.threads tid = none → k'.threads tid = none) :
    exitedStack k s v = false := by
  rw [exitedStack_shape, hspace] at h
  rw [exitedStack_shape]
  cases hsp : k.shape s with
  | none => rfl
  | some sp =>
    rw [hsp, Option.any_some, List.any_eq_false] at h
    rw [Option.any_some, List.any_eq_false]
    intro tid hlt hdead
    rw [List.mem_range] at hlt
    rw [Bool.and_eq_true, Option.isNone_iff_eq_none] at hdead
    refine h tid (List.mem_range.mpr (by omega)) ?_
    rw [Bool.and_eq_true, Option.isNone_iff_eq_none]
    exact ⟨hthreads tid hlt hdead.1, hdead.2⟩

/-- The stack that a thread forks is not one of an exited thread. -/
theorem exitedStack_fork {k : Kernel} {tid s : Nat} {space : Option Nat} {sp : AddrSpace}
    (hthread : k.threads tid = some space) (hs : k.spaces s = some sp) (junk : Nat → Int)
    {t v : Nat} (hex : exitedStack (k.setSpace s (sp.fork tid junk)) t v = false) :
    exitedStack k t v = false := by
  by_contra hexited
  obtain ⟨sp', u, pages, hsp, hlt, hdead, hpages, hv⟩ :=
    exitedStack_iff.mp (Bool.of_not_eq_false hexited)
  have hut : u ≠ tid := by
    rintro rfl
    rw [hthread] at hdead
    cases hdead
  refine absurd (exitedStack_iff.mpr ?_) (by rw [hex]; simp)
  by_cases hts : t = s
  · subst hts
    rw [hs] at hsp
    cases hsp
    refine ⟨_, u, pages, Function.update_self _ _ _, hlt, hdead, ?_, hv⟩
    simpa [AddrSpace.fork, Function.update_of_ne hut] using hpages
  · exact ⟨sp', u, pages, (Function.update_of_ne hts _ _).trans hsp, hlt, hdead, hpages, hv⟩

namespace Transparent

variable {k k' : Kernel} {m : Flat}

/-- An operation on the threads alone. -/
theorem rethreaded (h : Transparent k m) (th : Nat → Option (Option Nat)) (count : Nat)
    (cur : Option Nat)
    (htlb : TLBInv { k with threads := th, threadIDCount := count, currentThread := cur })
    (hlt : ∀ tid space, th tid = some space → tid < count)
    (hcount : k.threadIDCount ≤ count)
    (hdead : ∀ tid < k.threadIDCount, k.threads tid = none → th tid = none) :
    Transparent { k with threads := th, threadIDCount := count, currentThread := cur } m where
  sound := h.sound.threads rfl
  swap := h.swap.congr rfl rfl rfl
  tlb := htlb
  threads := hlt
  noStale s v hp hex := h.noStale s v hp (exitedStack_mono hex rfl hcount hdead)
  known := h.known
  holds s addr b hm hp hex := h.holds s addr b hm hp (exitedStack_mono hex rfl hcount hdead)

theorem scheduled (h : Transparent k m) (tid : Nat) : Transparent (schedulerRun k tid) m := by
  unfold schedulerRun
  cases hcur : k.currentSpace with
  | some s =>
    have h' := h.shrinks (shrinks_saveState k)
    exact h'.rethreaded _ _ _ (tlbInv_of_empty fun i hi => saveState_invalid k hi) h'.threads le_rfl
      fun _ _ hn => hn
  | none =>
    exact h.rethreaded _ _ _ (tlbInv_of_empty (h.tlb.empty_of_none hcur)) h.threads le_rfl
      fun _ _ hn => hn

theorem threadCreated (h : Transparent k m) (space : Option Nat) :
    Transparent (newThread k space) m := by
  refine h.rethreaded _ _ _ ?_ (fun tid sp ht => ?_) (Nat.le_succ _) fun tid hlt hn => ?_
  · refine h.tlb.congr rfl (fun s hs => ?_) fun _ _ _ _ _ => rfl
    obtain ⟨tid, hc, ht⟩ := currentSpace_some hs
    have hne : tid ≠ k.threadIDCount := Nat.ne_of_lt (h.threads tid _ ht)
    simp [Kernel.currentSpace, hc, Function.update_of_ne hne, ht]
  · rw [Function.update_apply] at ht
    split at ht
    · omega
    · exact Nat.lt_succ_of_lt (h.threads tid sp ht)
  · rw [Function.update_of_ne (Nat.ne_of_lt hlt)]
    exact hn

/-! ### New pages -/

/-- A space that gains empty pages. -/
theorem extended (h : Transparent k m) {s : Nat} {sp : AddrSpace} (he : Extended k s sp)
    (th : Nat → Option (Option Nat)) (count : Nat)
    (hs : Sound { k.setSpace s sp with spaceCount := count, threads := th })
    (ht : TLBInv { k.setSpace s sp with spaceCount := count, threads := th })
    (hthreads : ∀ tid space, th tid = some space → tid < k.threadIDCount)
    (hcount : k.spaceCount ≤ count) (hnew : k.shape s = none → s = k.spaceCount)
    (hex : ∀ t v, k.HasPage t v →
      exitedStack { k.setSpace s sp with spaceCount := count, threads := th } t v = false →
      exitedStack k t v = false) :
    Transparent { k.setSpace s sp with spaceCount := count, threads := th } m := by
  refine ⟨hs, (h.swap.extended he).congr rfl rfl rfl, ht, hthreads, fun t v hp hexv => ?_,
    fun t addr b hm => ?_, fun t addr b hm hp hexv => ?_⟩
  · rcases he.cases hp with ⟨hold, hpage⟩ | ⟨-, -, hloc, -⟩
    · have := h.noStale t v hold (hex t v hold hexv)
      unfold StaleSlot at this ⊢
      change ¬ (((k.setSpace s sp).page t v).valid = false ∧
        ((k.setSpace s sp).page t v).location = .SWAP)
      rw [hpage]
      exact this
    · exact fun hst => hloc hst.2
  · obtain ⟨hlt, hgone | hp⟩ := h.known t addr b hm
    · refine ⟨Nat.lt_of_lt_of_le hlt hcount, .inl ?_⟩
      have hts : t ≠ s := by
        rintro rfl
        exact absurd (hnew hgone) (Nat.ne_of_lt hlt)
      simpa [Kernel.shape, Kernel.setSpace, Function.update_of_ne hts] using hgone
    · exact ⟨Nat.lt_of_lt_of_le hlt hcount, .inr (he.hasPage hp).1⟩
  · rcases he.cases hp with ⟨hold, hpage⟩ | ⟨hnot, -⟩
    · exact (h.holds t addr b hm hold (hex t _ hold hexv)).congr hpage rfl rfl rfl rfl
    · obtain ⟨hlt, hgone | hp'⟩ := h.known t addr b hm
      · have hts : t ≠ s := by
          rintro rfl
          exact absurd (hnew hgone) (Nat.ne_of_lt hlt)
        have hnum := setSpace_numPages k s sp t
        rw [if_neg hts] at hnum
        exact absurd (Nat.lt_of_lt_of_eq hp hnum) hnot
      · exact absurd hp' hnot

theorem created (h : Transparent k m) {tid : Nat} (hcur : k.currentThread = some tid)
    (hthread : k.threads tid = some none) (exe : Executable) :
    Transparent (createSpace k tid exe) m := by
  have hfresh := h.sound.spaces.fresh k.spaceCount le_rfl
  have hnone : k.currentSpace = none := by simp [Kernel.currentSpace, hcur, hthread]
  refine h.extended (extended_new hfresh exe tid) _ _ (h.sound.created tid exe)
    (tlbInv_of_empty (h.tlb.empty_of_none hnone)) (fun t space ht => ?_) (Nat.le_succ _)
    (fun _ => rfl) fun t v hp hex => ?_
  · rw [Function.update_apply] at ht
    split at ht
    · rename_i heq
      rw [heq]
      exact h.threads tid _ hthread
    · exact h.threads t space ht
  · have hts : t ≠ k.spaceCount := by
      rintro rfl
      simp [Kernel.HasPage, Kernel.numPages, hfresh] at hp
    refine exitedStack_mono hex ?_ le_rfl fun u _ hdead => ?_
    · simp [Kernel.shape, Kernel.setSpace, Function.update_of_ne hts]
    · have hne : u ≠ tid := by
        rintro rfl
        rw [hthread] at hdead
        cases hdead
      exact (Function.update_of_ne hne _ _).trans hdead

theorem forked (h : Transparent k m) {tid s : Nat} {sp : AddrSpace}
    (hrun : k.running = some (tid, s, sp)) (junk : Nat → Int) :
    Transparent (k.setSpace s (sp.fork tid junk)) m := by
  obtain ⟨-, hthread, hs, -⟩ := running_some hrun
  refine h.extended (extended_fork hs tid junk) k.threads k.spaceCount (h.sound.forked hs tid junk)
    (h.tlb.congr rfl (fun _ hc => hc) fun _ _ _ _ _ => rfl) h.threads le_rfl (fun hgone => ?_)
    fun t v _ hex => exitedStack_fork hthread hs junk hex
  rw [shape_some hs] at hgone
  cases hgone

end Transparent

/-! ### Pages given back -/

theorem finish_dead {k : Kernel} {tid u : Nat} (hdead : k.threads u = none) :
    Function.update k.threads tid none u = none := by
  rw [Function.update_apply]
  split
  · rfl
  · exact hdead

/-- The pages given back are those of the stack that is exited now. -/
theorem exitedStack_exit {k : Kernel} {tid s : Nat} {sp : AddrSpace} {pages : List Nat}
    (hlay : SameLayout k (clearStack k s pages)) (htid : tid < k.threadIDCount)
    (hs : k.spaces s = some sp) (hpages : sp.threadTable tid = some pages) (t : Nat) {v : Nat}
    (hex : exitedStack ((clearStack k s pages).finish tid) t v = false) :
    ¬ (t = s ∧ v ∈ pages) ∧ exitedStack k t v = false := by
  have hgone : ∀ v ∈ pages, exitedStack ((clearStack k s pages).finish tid) s v = true := by
    intro v hv
    rw [exitedStack_shape]
    change ((clearStack k s pages).shape s).any _ = true
    rw [show (clearStack k s pages).shape = k.shape from hlay.shape, shape_some hs, Option.any_some,
      List.any_eq_true]
    refine ⟨tid, List.mem_range.mpr ?_, ?_⟩
    · change tid < (clearStack k s pages).threadIDCount
      rw [show (clearStack k s pages).threadIDCount = k.threadIDCount from hlay.threadIDCount]
      exact htid
    · simp [Kernel.finish, hpages, hv]
  refine ⟨?_, exitedStack_mono hex (congrFun hlay.shape t) (le_of_eq hlay.threadIDCount.symm)
    fun u _ hdead => finish_dead (by rw [← hdead]; exact congrFun hlay.threads u)⟩
  rintro ⟨rfl, hv⟩
  rw [hgone v hv] at hex
  cases hex

section Delete

variable {k : Kernel} {s : Nat} {junk : Nat → Int} (tid : Nat)
  (hlay : SameLayout k (saveState (deleteLoop k s junk (k.numPages s)))) {t v : Nat}

include hlay

theorem deleteSpace_shape (ht : t ≠ s) :
    ((deleteSpace k s junk).finish tid).shape t = k.shape t := by
  rw [← congrFun hlay.shape t]
  simp [Kernel.shape, Kernel.finish, deleteSpace, deleteLoop, Function.update_of_ne ht]

theorem deleteSpace_hasPage (hp : ((deleteSpace k s junk).finish tid).HasPage t v) :
    t ≠ s ∧ k.HasPage t v := by
  by_cases ht : t = s
  · simp [Kernel.HasPage, Kernel.numPages, Kernel.finish, deleteSpace, ht] at hp
  · refine ⟨ht, (hlay.hasPage t v).mp ?_⟩
    simpa [Kernel.HasPage, Kernel.numPages, Kernel.finish, deleteSpace, deleteLoop,
      Function.update_of_ne ht] using hp

theorem exitedStack_delete (ht : t ≠ s)
    (hex : exitedStack ((deleteSpace k s junk).finish tid) t v = false) :
    exitedStack k t v = false :=
  exitedStack_mono hex (deleteSpace_shape tid hlay ht) (le_of_eq hlay.threadIDCount.symm)
    fun u _ hdead => finish_dead (by rw [← hdead]; exact congrFun hlay.threads u)

end Delete

/-- The pages outside `P` of the space, and all pages of other spaces, are as they were. -/
structure KeepsOthers (k : Kernel) (s : Nat) (P : Nat → Prop) (k' : Kernel) : Prop where
  page : ∀ t v, ¬ (t = s ∧ P v) → k'.page t v = k.page t v
  holds : ∀ t addr b, ¬ (t = s ∧ P (addr / PageSize)) → Holds k t addr b → Holds k' t addr b

namespace KeepsOthers

variable {k k₁ k₂ : Kernel} {s : Nat} {P : Nat → Prop}

theorem refl (k : Kernel) (s : Nat) (P : Nat → Prop) : KeepsOthers k s P k :=
  ⟨fun _ _ _ => rfl, fun _ _ _ _ h => h⟩

theorem freed (h : KeepsOthers k s P k₁) {v : Nat} (hv : P v) (hf : PageFreed k₁ s v k₂) :
    KeepsOthers k s P k₂ := by
  refine ⟨fun t w hne => ?_, fun t addr b hne hh => ?_⟩
  · rw [hf.other t w fun heq => hne ⟨heq.1, heq.2 ▸ hv⟩]
    exact h.page t w hne
  · exact (h.holds t addr b hne hh).freed (fun heq => hne ⟨heq.1, heq.2 ▸ hv⟩) hf

theorem shrinks (h : KeepsOthers k s P k₁) (ht : TLBShrinks k₁ k₂) : KeepsOthers k s P k₂ :=
  ⟨fun t w hne => by rw [ht.page]; exact h.page t w hne,
    fun t addr b hne hh => (h.holds t addr b hne hh).shrinks ht.toTLBOnly ht.stillDirty⟩

end KeepsOthers

namespace Transparent

variable {k k' : Kernel} {m : Flat}

theorem finish_threads (h : Transparent k m) (tid : Nat) {u : Nat} (space : Option Nat)
    (hu : Function.update k.threads tid none u = some space) : u < k.threadIDCount := by
  rw [Function.update_apply] at hu
  split at hu
  · cases hu
  · exact h.threads u space hu

theorem exited (h : Transparent k m) {tid s : Nat} {sp : AddrSpace} {pages : List Nat}
    (hrun : k.running = some (tid, s, sp)) (hpages : sp.threadTable tid = some pages) :
    Transparent ((clearStack k s pages).finish tid) m := by
  obtain ⟨-, hthread, hs, -⟩ := running_some hrun
  have hrange := h.sound.stackPages hs hpages
  have hlay := clearStack_sameLayout hrange
  obtain ⟨-, hloop⟩ := exitLoop_rule (I := KeepsOthers k s (· ∈ pages)) (pages.take 8)
    (fun v hv => hrange v (List.mem_of_mem_take hv))
    (fun k₁ v hv _ hp hk₁ => hk₁.freed (List.mem_of_mem_take hv) (exitPage_spec hp)) (.refl k s _)
  have hkeep := hloop.shrinks (shrinks_saveState ((pages.take 8).foldl (exitPage s) k))
  have hmono := fun t v => exitedStack_exit (v := v) hlay (h.threads tid _ hthread) hs hpages t
  refine ⟨(h.sound.exited hrange).threads rfl, (h.swap.exited hrange).congr rfl rfl rfl,
    tlbInv_of_empty fun i hi => saveState_invalid _ hi, fun u space hu => ?_,
    fun t v hp hex => ?_, fun t addr b hm => ?_, fun t addr b hm hp hex => ?_⟩
  · change Function.update (clearStack k s pages).threads tid none u = some space at hu
    rw [show (clearStack k s pages).threads = k.threads from hlay.threads] at hu
    change u < (clearStack k s pages).threadIDCount
    rw [show (clearStack k s pages).threadIDCount = k.threadIDCount from hlay.threadIDCount]
    exact h.finish_threads tid space hu
  · obtain ⟨hne, hold⟩ := hmono t v hex
    have hp' := (hlay.hasPage t v).mp hp
    have := h.noStale t v hp' hold
    unfold StaleSlot at this ⊢
    rw [← hkeep.page t v hne] at this
    exact this
  · obtain ⟨hlt, hor⟩ := h.known t addr b hm
    rw [← hlay.shape, ← hlay.hasPage] at hor
    exact ⟨Nat.lt_of_lt_of_eq hlt hlay.spaceCount.symm, hor⟩
  · obtain ⟨hne, hold⟩ := hmono t _ hex
    have hp' := (hlay.hasPage t _).mp hp
    exact (hkeep.holds t addr b hne (h.holds t addr b hm hp' hold)).congr rfl rfl rfl rfl rfl

theorem deleted (h : Transparent k m) (tid s : Nat) (junk : Nat → Int) :
    Transparent ((deleteSpace k s junk).finish tid) m := by
  obtain ⟨hlay, -, -, hloop⟩ := deleteLoop_rule (I := KeepsOthers k s fun _ => True) s junk
    (fun n hn hlay hv hk₁ =>
      hk₁.freed trivial (deletePage_spec junk ((hlay.hasPage s n).mpr hn) hv)) (.refl k s _) le_rfl
  have hsave := shrinks_saveState (deleteLoop k s junk (k.numPages s))
  have hkeep := hloop.shrinks hsave
  have hlay := hlay.trans hsave.sameLayout
  have hother := fun t => deleteSpace_shape tid hlay (t := t)
  have hgone : ((deleteSpace k s junk).finish tid).shape s = none := by
    simp [Kernel.shape, Kernel.finish, deleteSpace]
  have hpages := fun t v => deleteSpace_hasPage tid hlay (t := t) (v := v)
  have hpage : ∀ t v, t ≠ s → ((deleteSpace k s junk).finish tid).page t v =
      (saveState (deleteLoop k s junk (k.numPages s))).page t v := by
    intro t v ht
    simp [Kernel.page, Kernel.finish, deleteSpace, deleteLoop, Function.update_of_ne ht]
  have hmono := fun t v => exitedStack_delete tid hlay (t := t) (v := v)
  refine ⟨(h.sound.deleted s junk).threads rfl, (h.swap.deleted s junk).congr rfl rfl rfl,
    tlbInv_of_empty fun i hi => saveState_invalid _ hi, fun u space hu => ?_,
    fun t v hp hex => ?_, fun t addr b hm => ?_, fun t addr b hm hp hex => ?_⟩
  · refine Nat.lt_of_lt_of_eq (h.finish_threads tid space ?_) hlay.threadIDCount.symm
    rw [← hlay.threads]
    exact hu
  · obtain ⟨ht, hp'⟩ := hpages t v hp
    have := h.noStale t v hp' (hmono t v ht hex)
    unfold StaleSlot at this ⊢
    rw [hpage t v ht, hkeep.page t v fun heq => ht heq.1]
    exact this
  · obtain ⟨hlt, hor⟩ := h.known t addr b hm
    refine ⟨Nat.lt_of_lt_of_eq hlt hlay.spaceCount.symm, ?_⟩
    by_cases ht : t = s
    · exact .inl (ht ▸ hgone)
    · rcases hor with hor | hor
      · exact .inl ((hother t ht).trans hor)
      · refine .inr ?_
        have := (hlay.hasPage t (addr / PageSize)).mpr hor
        simpa [Kernel.HasPage, Kernel.numPages, Kernel.finish, deleteSpace, deleteLoop,
          Function.update_of_ne ht] using this
  · obtain ⟨ht, hp'⟩ := hpages t _ hp
    exact (hkeep.holds t addr b (fun heq => ht heq.1)
      (h.holds t addr b hm hp' (hmono t _ ht hex))).congr (hpage t _ ht) rfl rfl rfl rfl

/-! ## Runs -/

/-- **One step of the machine is one step of the flat memory.** -/
theorem stepSpec {op : Op} {event : Event} (h : Transparent k m) (hlive : LiveAccess (k, m) op)
    (hstep : StepSpec k op k' event) : Transparent k' (m.record event) := by
  cases hstep with
  | loadHit hrun htr => exact h.shrinks (shrinks_translate htr)
  | storeHit hrun htr => exact h.store hrun htr
  | miss hop hrun hmiss hfault =>
    refine h.missed hrun hmiss ?_ hfault
    simpa [LiveAccess, hop, hrun] using hlive
  | run hthread => exact h.scheduled _
  | newThread space hspace => exact h.threadCreated space
  | create hcur hthread exe => exact h.created hcur hthread exe
  | fork hrun hfresh junk => exact h.forked hrun junk
  | exit hrun hpages => exact h.exited hrun hpages
  | delete hrun junk => exact h.deleted _ _ junk

theorem step {c c' : Kernel × Flat} {op : Op} (h : Transparent c.1 c.2)
    (hstep : Lib.Restrict FlatStep LiveAccess c op c') : Transparent c'.1 c'.2 := by
  obtain ⟨⟨hen, event, hnext, hm⟩, hlive⟩ := hstep
  rw [hm]
  exact h.stepSpec hlive (next_spec hen hnext)

end Transparent

theorem transparent_of_reachable {useFIFO : Bool} {c : Kernel × Flat}
    (h : Lib.Reachable (Lib.Restrict FlatStep LiveAccess) (Kernel.init useFIFO, Flat.empty) c) :
    Transparent c.1 c.2 :=
  h.invariant (I := fun c => Transparent c.1 c.2) (Transparent.init useFIFO)
    fun _ _ _ hc hstep => hc.step hstep

/-- **Demand paging is transparent.** After any run, every load that completes, from an
address the space has stored to, returns the last byte stored there. -/
theorem demand_paging_transparent {useFIFO : Bool} {k k' : Kernel} {m : Flat}
    (h : Lib.Reachable (Lib.Restrict FlatStep LiveAccess) (Kernel.init useFIFO, Flat.empty) (k, m))
    {op : Op} (hlive : LiveAccess (k, m) op) (hen : enabled k op = true) {s addr : Nat}
    {value : UInt8} (hload : next k op = .ok (k', .loaded s addr value)) {b : UInt8}
    (hstored : m s addr = some b) : value = b := by
  have hinv := transparent_of_reachable h
  have hspec := next_spec hen hload
  cases hspec with
  | loadHit hrun htr =>
    exact hinv.load hrun htr (by simpa [LiveAccess, Op.address, hrun] using hlive) hstored

/-- The step beside the flat memory as a function. -/
def flatStep? (c : Kernel × Flat) (op : Op) : Option (Kernel × Flat) :=
  if enabled c.1 op then (next c.1 op).toOption.map fun res => (res.1, c.2.record res.2) else none

theorem flatStep_of_flatStep? {c c' : Kernel × Flat} {op : Op} (h : flatStep? c op = some c') :
    FlatStep c op c' := by
  unfold flatStep? at h
  split at h
  · rename_i hen
    cases hn : next c.1 op with
    | error stop => simp [hn, Except.toOption] at h
    | ok res =>
      simp only [hn, Except.toOption, Option.map_some, Option.some.injEq] at h
      exact ⟨hen, res.2, by rw [← h]; exact hn, by rw [← h]⟩
  · cases h

/-- Store to page 5, touch 33 other pages, and fault page 5 in again. -/
def storeAndReturn : List Op :=
  [.create (.blank (40 * PageSize)), .store (5 * PageSize) 7 0, .store (5 * PageSize) 7 0] ++
  (List.range' 6 33).map (fun v => .load (v * PageSize) 0) ++ [.load (5 * PageSize) 0]

set_option maxRecDepth 100000 in
theorem demand_paging_transparent_swapped :
    ∃ k m k' value, Lib.Reachable (Lib.Restrict FlatStep LiveAccess)
        (Kernel.init true, Flat.empty) (k, m) ∧
      m 0 (5 * PageSize) = some 7 ∧
      next k (.load (5 * PageSize) 0) = .ok (k', .loaded 0 (5 * PageSize) value) ∧ value = 7 := by
  have hrun : (Lib.execute (Lib.guarded flatStep? LiveAccess) (Kernel.init true, Flat.empty)
      storeAndReturn).any (fun c => decide (c.2 0 (5 * PageSize) = some 7 ∧
        LiveAccess c (.load (5 * PageSize) 0) ∧ enabled c.1 (.load (5 * PageSize) 0) = true ∧
        (next c.1 (.load (5 * PageSize) 0)).toOption.map Prod.snd =
          some (.loaded 0 (5 * PageSize) 7))) = true := by
    decide +kernel
  obtain ⟨⟨k, m⟩, hk, hp⟩ := (Option.any_eq_true _ _).mp hrun
  have hreach := Lib.reachable_of_guarded (fun _ _ _ => flatStep_of_flatStep?) hk
  obtain ⟨hm, hlive, hen, hload⟩ := of_decide_eq_true hp
  cases hn : next k (.load (5 * PageSize) 0) with
  | error stop => simp [hn, Except.toOption] at hload
  | ok res =>
    obtain ⟨k', event⟩ := res
    simp only [hn, Except.toOption, Option.map_some, Option.some.injEq] at hload
    subst hload
    exact ⟨k, m, k', 7, hreach, hm, hn, demand_paging_transparent hreach hlive hen hn hm⟩

end Nachos.VM

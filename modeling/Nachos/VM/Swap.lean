import Nachos.VM.Frames

/-!
# Swap slots

A slot of the swap file is taken in `writePageToSwap` and given back in three places: when
its page is faulted in, when its thread exits and when its space is deleted. `SwapInv` says
that the set bits of `swapBitMap` are exactly the slots of the pages in swap, one page each.

## The defect

`AddrSpace::Exit` gives the slot of a stack page back and sets `valid` to false, but leaves
`location` at `SWAP`. `handleIPTmiss` looks at `location` alone, so a later fault on such a
page reads the slot the page once had and clears its bit, even when the slot has a new
owner. `StaleSlot` names these pages: away from faults on them the bookkeeping is exact
(`SwapInv.step`), and one such fault is enough to break it.
-/

namespace Nachos.VM

/-- The page of a live space whose contents are in swap. -/
def Kernel.InSwap (k : Kernel) (s v : Nat) : Prop :=
  k.HasPage s v ∧ (k.page s v).valid = true ∧ (k.page s v).location = .SWAP

/-- The page owns the slot. -/
def Kernel.HoldsSlot (k : Kernel) (s v slot : Nat) : Prop :=
  k.InSwap s v ∧ (k.page s v).byteOffset = (slot * PageSize : Nat)

instance (k : Kernel) (s v : Nat) : Decidable (k.InSwap s v) :=
  inferInstanceAs (Decidable (_ ∧ _ ∧ _))

instance (k : Kernel) (s v slot : Nat) : Decidable (k.HoldsSlot s v slot) :=
  inferInstanceAs (Decidable (_ ∧ _))

/-- The page holds nothing but is still said to be in swap. -/
def StaleSlot (k : Kernel) (s v : Nat) : Prop :=
  (k.page s v).valid = false ∧ (k.page s v).location = .SWAP

instance (k : Kernel) (s v : Nat) : Decidable (StaleSlot k s v) :=
  inferInstanceAs (Decidable (_ ∧ _))

/-- The set bits of `swapBitMap` are the slots of the pages in swap, one page each. -/
structure SwapInv (k : Kernel) : Prop where
  numBits : k.swapBitMap.numBits = NumSwapPages
  slot : ∀ s v, k.InSwap s v → ∃ slot < NumSwapPages, k.HoldsSlot s v slot ∧
    k.swapBitMap.test slot = true
  owner : ∀ slot < NumSwapPages, k.swapBitMap.test slot = true → ∃ s v, k.HoldsSlot s v slot
  unique : ∀ s v t w slot, k.HoldsSlot s v slot → k.HoldsSlot t w slot → s = t ∧ v = w

/-- A byte offset names one slot. -/
theorem slot_unique {k : Kernel} {s v i j : Nat} (hi : k.HoldsSlot s v i)
    (hj : k.HoldsSlot s v j) : i = j := by
  have heq := hi.2.symm.trans hj.2
  have : i * PageSize = j * PageSize := by exact_mod_cast heq
  exact Nat.eq_of_mul_eq_mul_right (by decide) this

theorem slot_of_byteOffset {k : Kernel} {s v slot : Nat} (h : k.HoldsSlot s v slot) :
    ((k.page s v).byteOffset / PageSize).toNat = slot := by
  rw [h.2, ← Int.natCast_ediv, Int.toNat_natCast, Nat.mul_div_cancel _ (by decide)]

namespace SwapInv

variable {k k' : Kernel}

theorem congr (h : SwapInv k) (hbits : k'.swapBitMap = k.swapBitMap) (hpage : k'.page = k.page)
    (hnum : k'.numPages = k.numPages) : SwapInv k' := by
  have hin : ∀ s v, k'.InSwap s v ↔ k.InSwap s v := by
    intro s v
    simp only [Kernel.InSwap, Kernel.HasPage, hpage, hnum]
  have hhold : ∀ s v i, k'.HoldsSlot s v i ↔ k.HoldsSlot s v i := by
    intro s v i
    simp only [Kernel.HoldsSlot, hin, hpage]
  refine ⟨by rw [hbits]; exact h.numBits, fun s v hs => ?_, fun i hi hb => ?_,
    fun s v t w i h1 h2 => ?_⟩
  · simp only [hhold, hbits]
    exact h.slot s v ((hin s v).mp hs)
  · simp only [hhold]
    rw [hbits] at hb
    exact h.owner i hi hb
  · exact h.unique s v t w i ((hhold s v i).mp h1) ((hhold t w i).mp h2)

theorem tlbOnly (h : SwapInv k) (ht : TLBOnly k k') : SwapInv k' :=
  h.congr ht.swap ht.page ht.numPages

/-- The slot of a page in swap is taken. -/
theorem taken (h : SwapInv k) {s v slot : Nat} (hs : k.HoldsSlot s v slot) :
    slot < NumSwapPages ∧ k.swapBitMap.test slot = true := by
  obtain ⟨j, hj, hh, hb⟩ := h.slot s v hs.1
  rw [slot_unique hs hh]
  exact ⟨hj, hb⟩

/-! ## One page enters or leaves swap

Every operation changes the swap status of at most one page. -/

/-- The page `(s, v)` gives up its slot, if it has one, and nothing else changes. -/
theorem left (h : SwapInv k) {s v : Nat} (hnum : k'.numPages = k.numPages)
    (hother : ∀ t w, ¬ (t = s ∧ w = v) → k'.page t w = k.page t w)
    (hout : ¬ k'.InSwap s v) (hkeep : ¬ k.InSwap s v → k'.swapBitMap = k.swapBitMap)
    (hgive : k.InSwap s v →
      k'.swapBitMap = k.swapBitMap.clear ((k.page s v).byteOffset / PageSize).toNat) :
    SwapInv k' := by
  have hold : ∀ t w i, k'.HoldsSlot t w i ↔ ¬ (t = s ∧ w = v) ∧ k.HoldsSlot t w i := by
    intro t w i
    by_cases heq : t = s ∧ w = v
    · obtain ⟨rfl, rfl⟩ := heq
      simp only [and_self, not_true, false_and, iff_false]
      exact fun hh => hout hh.1
    · simp [Kernel.HoldsSlot, Kernel.InSwap, Kernel.HasPage, hnum, hother t w heq, heq]
  have hin : ∀ t w, k'.InSwap t w → ¬ (t = s ∧ w = v) ∧ k.InSwap t w := by
    intro t w hs
    by_cases heq : t = s ∧ w = v
    · obtain ⟨rfl, rfl⟩ := heq
      exact absurd hs hout
    · rw [Kernel.InSwap, Kernel.HasPage, hnum, hother t w heq] at hs
      exact ⟨heq, hs⟩
  -- a slot that another page holds is not the one given up
  have hbit : ∀ t w i, ¬ (t = s ∧ w = v) → k.HoldsSlot t w i →
      k'.swapBitMap.test i = k.swapBitMap.test i := by
    intro t w i hne hh
    by_cases hs : k.InSwap s v
    · obtain ⟨j, -, hj, -⟩ := h.slot s v hs
      rw [hgive hs, slot_of_byteOffset hj, BitMap.test_clear, if_neg]
      rintro rfl
      exact hne (h.unique t w s v i hh hj)
    · rw [hkeep hs]
  refine ⟨?_, fun t w hs => ?_, fun i hi hb => ?_, fun t w t' w' i h1 h2 => ?_⟩
  · by_cases hs : k.InSwap s v
    · rw [hgive hs]; exact h.numBits
    · rw [hkeep hs]; exact h.numBits
  · obtain ⟨hne, hs⟩ := hin t w hs
    obtain ⟨i, hi, hh, hb⟩ := h.slot t w hs
    exact ⟨i, hi, (hold t w i).mpr ⟨hne, hh⟩, (hbit t w i hne hh).trans hb⟩
  · have hb' : k.swapBitMap.test i = true := by
      by_cases hs : k.InSwap s v
      · rw [hgive hs, BitMap.test_clear] at hb
        split at hb
        · cases hb
        · exact hb
      · rw [hkeep hs] at hb; exact hb
    obtain ⟨t, w, hh⟩ := h.owner i hi hb'
    refine ⟨t, w, (hold t w i).mpr ⟨?_, hh⟩⟩
    rintro ⟨rfl, rfl⟩
    rw [hgive hh.1, slot_of_byteOffset hh, BitMap.test_clear, if_pos rfl] at hb
    cases hb
  · exact h.unique t w t' w' i ((hold t w i).mp h1).2 ((hold t' w' i).mp h2).2

/-- The page `(s, v)`, not in swap before, takes the free slot `slot`. -/
theorem entered (h : SwapInv k) {s v slot : Nat} (hslot : slot < NumSwapPages)
    (hfree : k.swapBitMap.test slot = false) (hbits : k'.swapBitMap = k.swapBitMap.mark slot)
    (hnum : k'.numPages = k.numPages)
    (hother : ∀ t w, ¬ (t = s ∧ w = v) → k'.page t w = k.page t w)
    (hbefore : ¬ k.InSwap s v) (hafter : k'.HoldsSlot s v slot) : SwapInv k' := by
  have hold : ∀ t w i, ¬ (t = s ∧ w = v) → (k'.HoldsSlot t w i ↔ k.HoldsSlot t w i) := by
    intro t w i hne
    simp [Kernel.HoldsSlot, Kernel.InSwap, Kernel.HasPage, hnum, hother t w hne]
  have hne_slot : ∀ t w i, k.HoldsSlot t w i → i ≠ slot := by
    rintro t w i hh rfl
    rw [(h.taken hh).2] at hfree
    cases hfree
  refine ⟨by rw [hbits]; exact h.numBits, fun t w hs => ?_, fun i hi hb => ?_,
    fun t w t' w' i h1 h2 => ?_⟩
  · by_cases heq : t = s ∧ w = v
    · obtain ⟨rfl, rfl⟩ := heq
      exact ⟨slot, hslot, hafter, by simp [hbits, BitMap.test_mark]⟩
    · rw [Kernel.InSwap, Kernel.HasPage, hnum, hother t w heq] at hs
      obtain ⟨i, hi, hh, hb⟩ := h.slot t w hs
      exact ⟨i, hi, (hold t w i heq).mpr hh, by simp [hbits, BitMap.test_mark, hb]⟩
  · by_cases heq : i = slot
    · exact ⟨s, v, heq ▸ hafter⟩
    · rw [hbits, BitMap.test_mark, if_neg heq] at hb
      obtain ⟨t, w, hh⟩ := h.owner i hi hb
      refine ⟨t, w, (hold t w i ?_).mpr hh⟩
      rintro ⟨rfl, rfl⟩
      exact hbefore hh.1
  · by_cases heq : t = s ∧ w = v <;> by_cases heq' : t' = s ∧ w' = v
    · exact ⟨heq.1.trans heq'.1.symm, heq.2.trans heq'.2.symm⟩
    · obtain ⟨rfl, rfl⟩ := heq
      have h2 := (hold t' w' i heq').mp h2
      exact absurd (slot_unique h1 hafter) (hne_slot t' w' i h2)
    · obtain ⟨rfl, rfl⟩ := heq'
      have h1 := (hold t w i heq).mp h1
      exact absurd (slot_unique h2 hafter) (hne_slot t w i h1)
    · exact h.unique t w t' w' i ((hold t w i heq).mp h1) ((hold t' w' i heq').mp h2)

/-! ## The operations -/

/-- The victim of an eviction was in memory; a dirty one takes a free slot. -/
theorem evicted (h : SwapInv k) (hf : FrameInv none k) {ppn : Nat} (hlt : ppn < NumPhysPages)
    (hvalid : (k.IPT ppn).valid = true) (he : Evicted k ppn k') : SwapInv k' := by
  obtain ⟨hp, hv, hm, -⟩ := hf.entry ppn hlt hvalid
  have hnum := numPages_of_shape he.shape
  have hbefore : ¬ k.InSwap (k.IPT ppn).PID (k.IPT ppn).virtualPage := by
    rintro ⟨-, -, hs⟩
    rw [hm] at hs
    cases hs
  cases he.wentTo with
  | swap slot m _ hfind hbits _ hpage =>
    obtain ⟨hslot, hfree, -, rfl⟩ := BitMap.find_some hfind
    rw [h.numBits] at hslot
    refine h.entered hslot hfree hbits hnum he.other hbefore ⟨⟨?_, ?_, ?_⟩, ?_⟩
    · rw [Kernel.HasPage, hnum]; exact hp
    · rw [hpage]; exact hv
    · rw [hpage]
    · rw [hpage]
  | exec _ hbits _ hpage =>
    refine h.left hnum he.other ?_ (fun _ => hbits) (fun hs => absurd hs hbefore)
    rintro ⟨-, -, hs⟩
    rw [hpage] at hs
    cases hs

theorem findFrame (h : SwapInv k) (hf : FrameInv none k) {r ppn : Nat}
    (hfind : VM.findFrame k r = .ok (k', ppn)) : SwapInv k' := by
  rcases findFrame_spec hfind with ⟨m, -, rfl⟩ | ⟨-, hfull⟩
  · exact h.congr rfl rfl rfl
  · obtain ⟨-, hlt, hvalid, he⟩ := handleMemoryFull_spec hfull
    have ht := tlbOnly_dropFrame k ppn
    exact (h.tlbOnly ht).evicted (hf.tlbOnly ht) hlt (by rw [ht.valid]; exact hvalid)
      (he (hf.entry ppn hlt hvalid).1)

/-- A page that is faulted in gives its slot back, unless it never had one. -/
theorem faultedIn (h : SwapInv k) (hf : FrameInv none k) {s v r ppn : Nat} {k₁ k₂ k₃ : Kernel}
    {sp : AddrSpace} (hstale : ¬ StaleSlot k s v) (hin : FaultedIn k s v r k₁ ppn sp k₂ k₃) :
    SwapInv k₃ := by
  have h₁ := h.findFrame hf hin.found
  have hload := loadPage_cases hin.space hin.load
  have hk₂ := loadPage_same hin.load
  have hpage₂ : k₂.page = k₁.page := by rw [hk₂]; rfl
  have hnum : k₃.numPages = k₁.numPages := by
    rw [numPages_of_shape hin.recorded.shape, hk₂]; rfl
  have hbits : k₃.swapBitMap = k₂.swapBitMap := by rw [hin.recorded.rest]
  refine h₁.left (s := s) (v := v) hnum (fun t w hne => ?_) ?_ (fun hout => ?_) (fun hs => ?_)
  · rw [hin.recorded.page, if_neg hne, hpage₂]
  · rintro ⟨-, -, hs⟩
    rw [hin.recorded.page, if_pos ⟨rfl, rfl⟩] at hs
    cases hs
  · rcases hload with ⟨hloc, -⟩ | ⟨-, hsame, -⟩
    · -- the page is in swap and has a frame to go to, so it must be stale
      have hinvalid : (k₁.page s v).valid = false := by
        by_contra hv
        exact hout ⟨hin.page, by simpa using hv, hloc⟩
      rw [hin.foundPage] at hinvalid hloc
      exact absurd ⟨hinvalid, hloc⟩ hstale
    · rw [hbits, hsame]
  · rcases hload with ⟨-, hread⟩ | ⟨hloc, -⟩
    · rw [hbits, hread]; rfl
    · exact absurd hs.2.2 hloc

theorem freed (h : SwapInv k) {s v : Nat} (hp : k.HasPage s v) (hf : PageFreed k s v k') :
    SwapInv k' := by
  refine h.left (numPages_of_shape hf.shape) hf.other ?_ (fun hout => ?_) (fun hs => ?_)
  · rintro ⟨-, hv, -⟩
    rw [hf.invalid] at hv
    cases hv
  · exact hf.notSwap fun hs => hout ⟨hp, hs⟩
  · exact hf.swap hs.2.1 hs.2.2

theorem extended (h : SwapInv k) {s : Nat} {sp : AddrSpace} (he : Extended k s sp) :
    SwapInv (k.setSpace s sp) := by
  have hhold : ∀ t v i, (k.setSpace s sp).HoldsSlot t v i ↔ k.HoldsSlot t v i := by
    intro t v i
    constructor
    · rintro ⟨⟨hp, hv, hloc⟩, hoff⟩
      rcases he.cases hp with ⟨hold, hpage⟩ | ⟨-, hinv, -⟩
      · rw [hpage] at hv hloc hoff
        exact ⟨⟨hold, hv, hloc⟩, hoff⟩
      · rw [hinv] at hv; cases hv
    · rintro ⟨⟨hp, hv, hloc⟩, hoff⟩
      obtain ⟨hp', hpage⟩ := he.hasPage hp
      rw [Kernel.HoldsSlot, Kernel.InSwap, hpage]
      exact ⟨⟨hp', hv, hloc⟩, hoff⟩
  refine ⟨h.numBits, fun t v hs => ?_, fun i hi hb => ?_, fun t v t' w i h1 h2 => ?_⟩
  · have hs' : k.InSwap t v := by
      obtain ⟨hp, hv, hloc⟩ := hs
      rcases he.cases hp with ⟨hold, hpage⟩ | ⟨-, hinv, -⟩
      · rw [hpage] at hv hloc
        exact ⟨hold, hv, hloc⟩
      · rw [hinv] at hv; cases hv
    obtain ⟨i, hi, hh, hb⟩ := h.slot t v hs'
    exact ⟨i, hi, (hhold t v i).mpr hh, hb⟩
  · obtain ⟨t, v, hh⟩ := h.owner i hi hb
    exact ⟨t, v, (hhold t v i).mpr hh⟩
  · exact h.unique t v t' w i ((hhold t v i).mp h1) ((hhold t' w i).mp h2)

/-- A space without valid pages owns no slot and can go. -/
theorem dropped (h : SwapInv k) {s : Nat}
    (hempty : ∀ v, k.HasPage s v → (k.page s v).valid = false) :
    SwapInv { k with spaces := Function.update k.spaces s none } := by
  have hin : ∀ t v, Kernel.InSwap { k with spaces := Function.update k.spaces s none } t v ↔
      k.InSwap t v := by
    intro t v
    by_cases ht : t = s
    · subst ht
      simp only [Kernel.InSwap, Kernel.HasPage, Kernel.numPages, Function.update_self,
        Nat.not_lt_zero, false_and, false_iff, not_and]
      intro hp hv
      rw [hempty v hp] at hv
      cases hv
    · simp [Kernel.InSwap, Kernel.HasPage, Kernel.numPages, Kernel.page, Function.update_of_ne ht]
  have hhold : ∀ t v i, Kernel.HoldsSlot { k with spaces := Function.update k.spaces s none } t v i ↔
      k.HoldsSlot t v i := by
    intro t v i
    rw [Kernel.HoldsSlot, hin, Kernel.HoldsSlot]
    refine and_congr_right fun hs => ?_
    have ht : t ≠ s := by
      rintro rfl
      have := hempty v hs.1
      rw [hs.2.1] at this
      cases this
    simp [Kernel.page, Function.update_of_ne ht]
  refine ⟨h.numBits, fun t v hs => ?_, fun i hi hb => ?_, fun t v t' w i h1 h2 => ?_⟩
  · obtain ⟨i, hi, hh, hb⟩ := h.slot t v ((hin t v).mp hs)
    exact ⟨i, hi, (hhold t v i).mpr hh, hb⟩
  · obtain ⟨t, v, hh⟩ := h.owner i hi hb
    exact ⟨t, v, (hhold t v i).mpr hh⟩
  · exact h.unique t v t' w i ((hhold t v i).mp h1) ((hhold t' w i).mp h2)

theorem exited (h : SwapInv k) {s : Nat} {pages : List Nat}
    (hpages : ∀ v ∈ pages, k.HasPage s v) : SwapInv (clearStack k s pages) := by
  have hloop := exitLoop_rule (pages.take 8) (fun v hv => hpages v (List.mem_of_mem_take hv))
    (fun k₁ v _ _ hp hk₁ => hk₁.freed hp (exitPage_spec hp)) h
  exact hloop.2.tlbOnly (tlbOnly_saveState _)

theorem deleted (h : SwapInv k) (s : Nat) (junk : Nat → Int) : SwapInv (deleteSpace k s junk) := by
  obtain ⟨hlay, -, hinv, hloop⟩ := deleteLoop_rule s junk
    (fun n hn hlay hv hk₁ => hk₁.freed ((hlay.hasPage s n).mpr hn)
      (deletePage_spec junk ((hlay.hasPage s n).mpr hn) hv)) h le_rfl
  have ht := tlbOnly_saveState (deleteLoop k s junk (k.numPages s))
  refine (hloop.tlbOnly ht).dropped fun v hp => ?_
  rw [ht.page]
  exact hinv v ((hlay.hasPage s v).mp ((ht.hasPage s v).mp hp))

end SwapInv

/-! ## Runs without faults on stale pages -/

/-- The operation is no access to a page that holds nothing but is said to be in swap. -/
def NoStaleAccess (k : Kernel) (op : Op) : Prop :=
  (op.address.any fun addr => k.running.any fun (_, s, _) =>
    decide (StaleSlot k s (addr / PageSize))) = false

instance (k : Kernel) (op : Op) : Decidable (NoStaleAccess k op) :=
  inferInstanceAs (Decidable (_ = _))

theorem NoStaleAccess.page {k : Kernel} {op : Op} {addr tid s : Nat} {sp : AddrSpace}
    (h : NoStaleAccess k op) (hop : op.address = some addr)
    (hrun : k.running = some (tid, s, sp)) : ¬ StaleSlot k s (addr / PageSize) := by
  simpa [NoStaleAccess, hop, hrun] using h

namespace SwapInv

variable {k k' : Kernel}

theorem init (useFIFO : Bool) : SwapInv (Kernel.init useFIFO) := by
  refine ⟨rfl, fun s v hs => ?_, fun i _ hb => ?_, fun s v t w i hs => ?_⟩
  · simp [Kernel.InSwap, Kernel.HasPage, Kernel.numPages, Kernel.init] at hs
  · simp [Kernel.init] at hb
  · simp [Kernel.HoldsSlot, Kernel.InSwap, Kernel.HasPage, Kernel.numPages, Kernel.init] at hs

theorem missed (h : SwapInv k) (hs : Sound k) {s VA r : Nat}
    (hstale : ¬ StaleSlot k s (VA / PageSize)) (hm : handleTLBMiss k s VA r = .ok k') :
    SwapInv k' := by
  rcases handleTLBMiss_cases hs.spaces hs.frames hm with
    ⟨ppn, -, rfl⟩ | ⟨k₁, ppn, sp, k₂, k₃, -, hin, rfl⟩
  · exact h.tlbOnly (tlbOnly_populate k ppn)
  · exact (h.faultedIn hs.frames hstale hin).tlbOnly (tlbOnly_populate k₃ ppn)

/-- **One step keeps the slots exact**, unless it accesses a stale page. -/
theorem stepSpec {op : Op} {event : Event} (h : SwapInv k) (hs : Sound k)
    (hstale : NoStaleAccess k op) (hstep : StepSpec k op k' event) : SwapInv k' := by
  cases hstep with
  | loadHit hrun htr => exact h.tlbOnly (tlbOnly_translate htr)
  | storeHit hrun htr => exact (h.tlbOnly (tlbOnly_translate htr)).congr rfl rfl rfl
  | miss hop hrun hmiss hfault => exact h.missed hs (hstale.page hop hrun) hfault
  | run hthread =>
    unfold schedulerRun
    split
    · exact (h.tlbOnly (tlbOnly_saveState k)).congr rfl rfl rfl
    · exact h.congr rfl rfl rfl
  | newThread space hspace => exact h.congr rfl rfl rfl
  | create hcur hthread exe =>
    exact (h.extended (extended_new (hs.spaces.fresh k.spaceCount le_rfl) exe _)).congr rfl rfl rfl
  | fork hrun hfresh junk => exact h.extended (extended_fork (running_some hrun).2.2.1 _ junk)
  | exit hrun hpages =>
    exact (h.exited (hs.stackPages (running_some hrun).2.2.1 hpages)).congr rfl rfl rfl
  | delete hrun junk => exact (h.deleted _ junk).congr rfl rfl rfl

theorem step {op : Op} (h : SwapInv k) (hs : Sound k)
    (hstep : Lib.Restrict Step NoStaleAccess k op k') : SwapInv k' := by
  obtain ⟨⟨hen, event, hnext⟩, hstale⟩ := hstep
  exact h.stepSpec hs hstale (next_spec hen hnext)

end SwapInv

/-- Both invariants hold in every state that a run without stale accesses reaches. -/
theorem swapInv_of_reachable {useFIFO : Bool} {k : Kernel}
    (h : Lib.Reachable (Lib.Restrict Step NoStaleAccess) (Kernel.init useFIFO) k) :
    Sound k ∧ SwapInv k :=
  h.invariant (I := fun k => Sound k ∧ SwapInv k) ⟨Sound.init useFIFO, SwapInv.init useFIFO⟩
    fun _ _ _ hk hstep => ⟨hk.1.step hstep.1, hk.2.step hk.1 hstep⟩

/-! ## What a fault does to the slots of other pages -/

/-- Finding a frame moves no page in swap and writes to no slot of one. -/
theorem SwapInv.findFrame_keeps {k k₁ : Kernel} (h : SwapInv k) (hf : FrameInv none k)
    {r ppn t w slot : Nat} (hfind : VM.findFrame k r = .ok (k₁, ppn)) (hh : k.HoldsSlot t w slot) :
    k₁.page t w = k.page t w ∧ ∀ j < PageSize,
      k₁.swapFile (slot * PageSize + j) = k.swapFile (slot * PageSize + j) := by
  rcases findFrame_spec hfind with ⟨m, -, rfl⟩ | ⟨-, hfull⟩
  · exact ⟨rfl, fun _ _ => rfl⟩
  · obtain ⟨-, hlt, hvalid, he⟩ := handleMemoryFull_spec hfull
    have hent := hf.entry ppn hlt hvalid
    have he := he hent.1
    have ht := tlbOnly_dropFrame k ppn
    have hother : ¬ (t = (k.IPT ppn).PID ∧ w = (k.IPT ppn).virtualPage) := by
      rintro ⟨rfl, rfl⟩
      have hloc := hh.1.2.2
      rw [hent.2.2.1] at hloc
      cases hloc
    refine ⟨?_, fun j hj => ?_⟩
    · rw [he.other t w (by rw [ht.PID, ht.virtualPage]; exact hother), ht.page]
    · cases he.wentTo with
      | swap i m _ hfree _ hfile _ =>
        rw [ht.swap] at hfree
        have hclear := (BitMap.find_some hfree).2.1
        have hne : slot ≠ i := by
          rintro rfl
          rw [(h.taken hh).2] at hclear
          cases hclear
        have hout : ¬ (i * PageSize ≤ slot * PageSize + j ∧
            slot * PageSize + j < i * PageSize + PageSize) := by
          change ¬ (i * 128 ≤ slot * 128 + j ∧ slot * 128 + j < i * 128 + 128)
          change j < 128 at hj
          omega
        rw [hfile, blit, if_neg hout, ht.swapFile]
      | exec _ _ hfile _ => rw [hfile, ht.swapFile]

/-- A fault on one page leaves the slots of the others to them, and reads none of them. -/
theorem SwapInv.fault_keeps {k k' : Kernel} (h : SwapInv k) (hs : Sound k) {s VA r : Nat}
    (hm : handleTLBMiss k s VA r = .ok k') (hstale : ¬ StaleSlot k s (VA / PageSize))
    {t w slot : Nat} (hne : ¬ (t = s ∧ w = VA / PageSize)) (hh : k.HoldsSlot t w slot) :
    k'.HoldsSlot t w slot ∧ k'.swapBitMap.test slot = true ∧
      (∀ j < PageSize, k'.swapFile (slot * PageSize + j) = k.swapFile (slot * PageSize + j)) ∧
      (k.HasPage s (VA / PageSize) → (k.page s (VA / PageSize)).location = .SWAP →
        (k.page s (VA / PageSize)).byteOffset ≠ (slot * PageSize : Nat)) := by
  have h' := h.missed hs hstale hm
  have hlay := handleTLBMiss_sameLayout hs.spaces hs.frames hm
  have hkeep : k'.page t w = k.page t w ∧ ∀ j < PageSize,
      k'.swapFile (slot * PageSize + j) = k.swapFile (slot * PageSize + j) := by
    rcases handleTLBMiss_cases hs.spaces hs.frames hm with
      ⟨ppn, -, rfl⟩ | ⟨k₁, ppn, sp, k₂, k₃, -, hin, rfl⟩
    · have ht := tlbOnly_populate k ppn
      exact ⟨by rw [ht.page], fun j _ => by rw [ht.swapFile]⟩
    · have ht := tlbOnly_populate k₃ ppn
      have hk₂ := loadPage_same hin.load
      have hpage₂ : k₂.page = k₁.page := by rw [hk₂]; rfl
      have hfile₃ : k₃.swapFile = k₁.swapFile := by rw [hin.recorded.rest, hk₂]
      obtain ⟨hpage, hfile⟩ := h.findFrame_keeps hs.frames hin.found hh
      refine ⟨?_, fun j hj => ?_⟩
      · rw [ht.page, hin.recorded.page, if_neg hne, hpage₂, hpage]
      · rw [ht.swapFile, hfile₃, hfile j hj]
  have hhold : k'.HoldsSlot t w slot := by
    rw [Kernel.HoldsSlot, Kernel.InSwap, hkeep.1, hlay.hasPage]
    exact hh
  refine ⟨hhold, (h'.taken hhold).2, hkeep.2, fun hp hloc hoff => ?_⟩
  have hvalid : (k.page s (VA / PageSize)).valid = true := by
    by_contra hv
    exact hstale ⟨by simpa using hv, hloc⟩
  exact hne (h.unique t w s (VA / PageSize) slot hh ⟨⟨hp, hvalid, hloc⟩, hoff⟩)

/-- **Swap-slot ownership.** In every state of a run without accesses to stale pages, a bit
of `swapBitMap` is set exactly when one page holds the slot, and a fault on any page that is
not stale neither clears, overwrites nor reads the slot of another page. -/
theorem swap_slot_ownership {useFIFO : Bool} {k : Kernel}
    (h : Lib.Reachable (Lib.Restrict Step NoStaleAccess) (Kernel.init useFIFO) k) :
    (∀ slot < NumSwapPages, k.swapBitMap.test slot = true ↔
      ∃! page : Nat × Nat, k.HoldsSlot page.1 page.2 slot) ∧
    (∀ s v, k.InSwap s v → ∃ slot < NumSwapPages, k.HoldsSlot s v slot) ∧
    (∀ s VA r k', handleTLBMiss k s VA r = .ok k' → k.HasPage s (VA / PageSize) →
      ¬ StaleSlot k s (VA / PageSize) →
      ∀ t w slot, ¬ (t = s ∧ w = VA / PageSize) → k.HoldsSlot t w slot →
        k'.HoldsSlot t w slot ∧ k'.swapBitMap.test slot = true ∧
        (∀ j < PageSize, k'.swapFile (slot * PageSize + j) = k.swapFile (slot * PageSize + j)) ∧
        ((k.page s (VA / PageSize)).location = .SWAP →
          (k.page s (VA / PageSize)).byteOffset ≠ (slot * PageSize : Nat))) := by
  obtain ⟨hs, hw⟩ := swapInv_of_reachable h
  refine ⟨fun slot hlt => ⟨fun hb => ?_, ?_⟩, fun s v hin => ?_,
    fun s VA r k' hm hp hstale t w slot hne hh => ?_⟩
  · obtain ⟨s, v, hh⟩ := hw.owner slot hlt hb
    refine ⟨(s, v), hh, ?_⟩
    rintro ⟨t, w⟩ hh'
    obtain ⟨rfl, rfl⟩ := hw.unique t w s v slot hh' hh
    rfl
  · rintro ⟨⟨s, v⟩, hh, -⟩
    exact (hw.taken hh).2
  · obtain ⟨slot, hlt, hh, -⟩ := hw.slot s v hin
    exact ⟨slot, hlt, hh⟩
  · obtain ⟨hh', hb, hfile, hread⟩ := hw.fault_keeps hs hm hstale hne hh
    exact ⟨hh', hb, hfile, hread hp⟩

/-- A forked thread stores to a page of its stack, which the pages of the program then push
out to slot 0. -/
def stackToSwap : List Op :=
  [.create (.blank (40 * PageSize)), .newThread true, .run 1, .fork fun _ => 0,
    .store (48 * PageSize) 7 0, .store (48 * PageSize) 7 0] ++
  (List.range 32).map fun v => .load (v * PageSize) 0

/-- The thread exits and gives slot 0 back; a page of the main thread takes the slot; the
main thread touches the stack page of the exited thread. -/
def staleStackRead : List Op :=
  stackToSwap ++ [.exit, .run 0, .store (5 * PageSize) 9 0, .store (5 * PageSize) 9 0] ++
  (List.range' 32 7).map (fun v => .load (v * PageSize) 0) ++ [.load (48 * PageSize) 0]

set_option maxRecDepth 100000 in
theorem swap_slot_ownership_stack_page :
    ∃ k, Lib.Reachable (Lib.Restrict Step NoStaleAccess) (Kernel.init true) k ∧
      k.swapBitMap.test 0 = true ∧ k.HoldsSlot 0 48 0 ∧
      ∃! page : Nat × Nat, k.HoldsSlot page.1 page.2 0 := by
  have hrun : (Lib.execute (Lib.guarded step? NoStaleAccess) (Kernel.init true) stackToSwap).any
      (fun k => decide (k.swapBitMap.test 0 = true ∧ k.HoldsSlot 0 48 0)) = true := by
    decide +kernel
  obtain ⟨k, hk, hp⟩ := (Option.any_eq_true _ _).mp hrun
  have hreach := Lib.reachable_of_guarded (fun _ _ _ => step_of_step?) hk
  obtain ⟨hbit, hhold⟩ := of_decide_eq_true hp
  exact ⟨k, hreach, hbit, hhold, ((swap_slot_ownership hreach).1 0 (by decide)).mp hbit⟩

set_option maxRecDepth 100000 in
/-- The fault on the stale stack page clears the bit of a slot that page 5 holds. -/
theorem stale_fault_clears_slot :
    ∃ k, Lib.Reachable Step (Kernel.init true) k ∧
      ¬ (k.swapBitMap.test 0 = true ↔ ∃! page : Nat × Nat, k.HoldsSlot page.1 page.2 0) := by
  have hrun : (Lib.execute step? (Kernel.init true) staleStackRead).any
      (fun k => decide (k.swapBitMap.test 0 = false ∧ k.HoldsSlot 0 5 0 ∧ k.spaceCount = 1 ∧
        ∀ v < k.numPages 0, k.HoldsSlot 0 v 0 → v = 5)) = true := by
    decide +kernel
  obtain ⟨k, hk, hp⟩ := (Option.any_eq_true _ _).mp hrun
  have hreach : Lib.Reachable Step (Kernel.init true) k :=
    ⟨_, Lib.path_of_execute (fun _ _ _ => step_of_step?) hk⟩
  obtain ⟨hbit, hhold, hcount, honly⟩ := of_decide_eq_true hp
  refine ⟨k, hreach, fun hiff => ?_⟩
  have hset := hiff.mpr ⟨(0, 5), hhold, ?_⟩
  · rw [hbit] at hset
    cases hset
  · rintro ⟨s, v⟩ hh
    have hs : s = 0 := by
      by_contra hne
      have hnone := (sound_of_reachable hreach).spaces.fresh s (by omega)
      have := hh.1.1
      simp [Kernel.HasPage, Kernel.numPages, hnone] at this
    subst hs
    rw [honly v hh.1.1 hh]

end Nachos.VM

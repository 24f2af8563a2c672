import Mathlib.Data.Finset.Card
import Nachos.VM.Effects

/-!
# Frame accounting

The mapping between pages and frames is stored three times: in the frame bitmap, in the IPT
and in the page tables. `FrameInv` says that the three agree, and every operation of the
machine keeps it.

## The crux

Inside a fault the three disagree for a moment: `findFrame` has taken a frame whose IPT
entry is not valid yet. `FrameInv` therefore carries the frame in question as an optional
hole; `findFrame` opens it and `recordLoad` closes it.

The eviction queue is no reliable list of resident frames (the destructor of `AddrSpace`
erases the wrong entries), but it never gets shorter than the number of used frames: each
load appends one entry and each freed frame costs at most one. So when memory is full the
queue is not empty, and its head is a frame of a full memory, hence valid.
-/

namespace Nachos

/-- The number of set bits. -/
def BitMap.count (m : BitMap) : Nat := ((Finset.range m.numBits).filter (m.test · = true)).card

theorem BitMap.count_mark {m : BitMap} {i : Nat} (hi : i < m.numBits) (hc : m.test i = false) :
    (m.mark i).count = m.count + 1 := by
  have hins : (Finset.range (m.mark i).numBits).filter ((m.mark i).test · = true)
      = insert i ((Finset.range m.numBits).filter (m.test · = true)) := by
    ext j
    by_cases hj : j = i
    · subst hj; simp [BitMap.test_mark, hi]
    · simp [BitMap.test_mark, hj]
  unfold BitMap.count
  rw [hins, Finset.card_insert_of_notMem (by simp [hc])]

theorem BitMap.count_clear {m : BitMap} {i : Nat} (hi : i < m.numBits) (hs : m.test i = true) :
    (m.clear i).count + 1 = m.count := by
  have hera : (Finset.range (m.clear i).numBits).filter ((m.clear i).test · = true)
      = ((Finset.range m.numBits).filter (m.test · = true)).erase i := by
    ext j
    by_cases hj : j = i
    · subst hj; simp [BitMap.test_clear]
    · simp [BitMap.test_clear, hj]
  unfold BitMap.count
  rw [hera, Finset.card_erase_add_one (by simp [hi, hs])]

theorem BitMap.count_full {m : BitMap} (h : ∀ i < m.numBits, m.test i = true) :
    m.count = m.numBits := by
  unfold BitMap.count
  rw [Finset.filter_true_of_mem (fun i hi => h i (Finset.mem_range.mp hi)), Finset.card_range]

namespace VM

/-! ## Well-formed spaces -/

/-- What creation and `Fork` establish for every page table: entry `v` is about page `v`,
recorded stack pages are in range, and numbers not yet given out name no space. -/
structure SpaceInv (k : Kernel) : Prop where
  vpn : ∀ s v, k.HasPage s v → (k.page s v).virtualPage = v
  stack : ∀ s sp tid pages, k.spaces s = some sp → sp.threadTable tid = some pages →
    ∀ v ∈ pages, v < sp.numPages
  fresh : ∀ s, k.spaceCount ≤ s → k.spaces s = none

/-! ## The invariant -/

/-- The frame bitmap, the IPT and the page tables agree, except at the frame `hole` that a
fault in progress has taken. -/
structure FrameInv (hole : Option Nat) (k : Kernel) : Prop where
  numBits : k.pageTableBitMap.numBits = NumPhysPages
  bits : ∀ f < NumPhysPages, hole ≠ some f →
    (k.pageTableBitMap.test f = true ↔ (k.IPT f).valid = true)
  taken : ∀ f, hole = some f →
    f < NumPhysPages ∧ k.pageTableBitMap.test f = true ∧ (k.IPT f).valid = false
  entry : ∀ f < NumPhysPages, (k.IPT f).valid = true →
    k.HasPage (k.IPT f).PID (k.IPT f).virtualPage ∧
    (k.page (k.IPT f).PID (k.IPT f).virtualPage).valid = true ∧
    (k.page (k.IPT f).PID (k.IPT f).virtualPage).location = .MAIN ∧
    (k.page (k.IPT f).PID (k.IPT f).virtualPage).physicalPage = (f : Int)
  frame : ∀ f < NumPhysPages, (k.IPT f).valid = true → (k.IPT f).physicalPage = (f : Int)
  page : ∀ s v, k.HasPage s v → (k.page s v).valid = true → (k.page s v).location = .MAIN →
    ∃ f < NumPhysPages, (k.IPT f).valid = true ∧ (k.IPT f).PID = s ∧ (k.IPT f).virtualPage = v
  queue : ∀ f ∈ k.FIFOList, f < NumPhysPages
  queueLength : k.pageTableBitMap.count ≤ k.FIFOList.length + if hole.isSome then 1 else 0

namespace FrameInv

variable {hole : Option Nat} {k k' : Kernel}

/-- The frame of a resident page. -/
theorem pageFrame (h : FrameInv hole k) {s v : Nat} (hp : k.HasPage s v)
    (hv : (k.page s v).valid = true) (hm : (k.page s v).location = .MAIN) :
    ∃ f < NumPhysPages, (k.page s v).physicalPage = (f : Int) ∧ (k.IPT f).valid = true ∧
      (k.IPT f).PID = s ∧ (k.IPT f).virtualPage = v := by
  obtain ⟨f, hf, hvalid, hs, hvp⟩ := h.page s v hp hv hm
  obtain ⟨-, -, -, hpp⟩ := h.entry f hf hvalid
  rw [hs, hvp] at hpp
  exact ⟨f, hf, hpp, hvalid, hs, hvp⟩

/-- No page has two frames. -/
theorem frame_unique (h : FrameInv hole k) {f g : Nat} (hf : f < NumPhysPages)
    (hg : g < NumPhysPages) (hfv : (k.IPT f).valid = true) (hgv : (k.IPT g).valid = true)
    (hs : (k.IPT f).PID = (k.IPT g).PID) (hv : (k.IPT f).virtualPage = (k.IPT g).virtualPage) :
    f = g := by
  have h1 := (h.entry f hf hfv).2.2.2
  have h2 := (h.entry g hg hgv).2.2.2
  rw [hs, hv] at h1
  omega

/-- The invariant reads only part of the state. -/
theorem congr (h : FrameInv hole k) (hbits : k'.pageTableBitMap = k.pageTableBitMap)
    (hvalid : ∀ f, (k'.IPT f).valid = (k.IPT f).valid) (hPID : ∀ f, (k'.IPT f).PID = (k.IPT f).PID)
    (hvp : ∀ f, (k'.IPT f).virtualPage = (k.IPT f).virtualPage)
    (hpp : ∀ f, (k'.IPT f).physicalPage = (k.IPT f).physicalPage)
    (hpage : k'.page = k.page) (hnum : k'.numPages = k.numPages)
    (hfifo : k'.FIFOList = k.FIFOList) : FrameInv hole k' where
  numBits := by rw [hbits]; exact h.numBits
  bits f hf hne := by rw [hbits, hvalid]; exact h.bits f hf hne
  taken f hf := by rw [hbits, hvalid]; exact h.taken f hf
  entry f hf hv := by
    rw [hvalid] at hv
    simp only [Kernel.HasPage, hpage, hnum, hPID, hvp]
    exact h.entry f hf hv
  frame f hf hv := by rw [hpp]; rw [hvalid] at hv; exact h.frame f hf hv
  page s v hp hv hm := by
    rw [hpage] at hv hm
    simp only [Kernel.HasPage, hnum] at hp
    simp only [hvalid, hPID, hvp]
    exact h.page s v hp hv hm
  queue := by rw [hfifo]; exact h.queue
  queueLength := by rw [hbits, hfifo]; exact h.queueLength

theorem tlbOnly (h : FrameInv hole k) (ht : TLBOnly k k') : FrameInv hole k' :=
  h.congr ht.frames ht.valid ht.PID ht.virtualPage ht.physicalPage ht.page ht.numPages ht.FIFOList

/-! ## Taking a frame -/

/-- A free frame opens the hole. -/
theorem find (h : FrameInv none k) {ppn : Nat} {m : BitMap}
    (hfind : k.pageTableBitMap.find = (some ppn, m)) :
    FrameInv (some ppn) { k with pageTableBitMap := m } := by
  obtain ⟨hlt, hclear, -, rfl⟩ := BitMap.find_some hfind
  have hlt' : ppn < NumPhysPages := by rw [← h.numBits]; exact hlt
  have hinvalid : (k.IPT ppn).valid = false := by
    have := h.bits ppn hlt' (by simp)
    simpa [hclear] using this
  refine ⟨h.numBits, ?_, ?_, h.entry, h.frame, h.page, h.queue, ?_⟩
  · intro f hf hne
    have hne' : f ≠ ppn := fun heq => hne (by rw [heq])
    simp only [BitMap.test_mark, if_neg hne']
    exact h.bits f hf (by simp)
  · intro f hf
    cases hf
    exact ⟨hlt', by simp [BitMap.test_mark], hinvalid⟩
  · have := h.queueLength
    simp only [BitMap.count_mark hlt hclear, Option.isSome_some, if_true]
    simp only [Option.isSome_none, Bool.false_eq_true, if_false] at this
    omega

/-- An eviction opens the hole at the victim's frame: its page is no longer `MAIN`. -/
theorem evicted (h : FrameInv none k) {ppn : Nat} (hlt : ppn < NumPhysPages)
    (hvalid : (k.IPT ppn).valid = true) (he : Evicted k ppn k') : FrameInv (some ppn) k' := by
  have hnum := numPages_of_shape he.shape
  have hother : ∀ f < NumPhysPages, f ≠ ppn → (k.IPT f).valid = true →
      ¬ ((k.IPT f).PID = (k.IPT ppn).PID ∧ (k.IPT f).virtualPage = (k.IPT ppn).virtualPage) := by
    rintro f hf hne hv ⟨h1, h2⟩
    exact hne (h.frame_unique hf hlt hv hvalid h1 h2)
  have hloc : (k'.page (k.IPT ppn).PID (k.IPT ppn).virtualPage).location ≠ .MAIN := by
    cases he.wentTo with
    | swap slot m _ _ _ _ hpage => rw [hpage]; simp
    | exec _ _ _ hpage => rw [hpage]; simp
  refine ⟨by rw [he.frames]; exact h.numBits, ?_, ?_, ?_, ?_, ?_, ?_, ?_⟩
  · intro f hf hne
    have hne' : f ≠ ppn := fun heq => hne (by rw [heq])
    rw [he.frames, he.IPT, if_neg hne']
    exact h.bits f hf (by simp)
  · intro f hf
    cases hf
    refine ⟨hlt, ?_, by rw [he.IPT, if_pos rfl]⟩
    rw [he.frames]
    exact (h.bits ppn hlt (by simp)).mpr hvalid
  · -- another valid frame names another page, which the eviction does not touch
    intro f hf hv
    by_cases hne : f = ppn
    · subst hne; simp [he.IPT] at hv
    · rw [he.IPT, if_neg hne] at hv ⊢
      rw [Kernel.HasPage, hnum, he.other _ _ (hother f hf hne hv)]
      exact h.entry f hf hv
  · intro f hf hv
    by_cases hne : f = ppn
    · subst hne; simp [he.IPT] at hv
    · rw [he.IPT, if_neg hne] at hv ⊢
      exact h.frame f hf hv
  · intro s v hp hv hm
    by_cases heq : s = (k.IPT ppn).PID ∧ v = (k.IPT ppn).virtualPage
    · rw [heq.1, heq.2] at hm
      exact absurd hm hloc
    · rw [he.other s v heq] at hv hm
      rw [Kernel.HasPage, hnum] at hp
      obtain ⟨f, hf, hfv, hfs, hfp⟩ := h.page s v hp hv hm
      have hne : f ≠ ppn := by
        rintro rfl
        exact heq ⟨hfs.symm, hfp.symm⟩
      refine ⟨f, hf, ?_⟩
      rw [he.IPT, if_neg hne]
      exact ⟨hfv, hfs, hfp⟩
  · intro f hf
    rw [he.FIFOList] at hf
    exact h.queue f (List.mem_of_mem_erase hf)
  · have hlen := h.queueLength
    have herase := length_le_erase k.FIFOList ppn
    simp only [Option.isSome_none, Bool.false_eq_true, if_false] at hlen
    simp only [he.frames, he.FIFOList, Option.isSome_some, if_true]
    omega

/-- **`findFrame` opens the hole at the frame it returns.** -/
theorem findFrame (h : FrameInv none k) {r ppn : Nat} (hf : findFrame k r = .ok (k', ppn)) :
    FrameInv (some ppn) k' := by
  rcases findFrame_spec hf with ⟨m, hfind, rfl⟩ | ⟨-, hfull⟩
  · exact h.find hfind
  · obtain ⟨-, hlt, hvalid, he⟩ := handleMemoryFull_spec hfull
    have ht := tlbOnly_dropFrame k ppn
    exact (h.tlbOnly ht).evicted hlt (by rw [ht.valid]; exact hvalid) (he (h.entry ppn hlt hvalid).1)

/-! ## Filling the frame -/

/-- `recordLoad` closes the hole, for a page that no valid IPT entry names. -/
theorem recorded {ppn s v : Nat} (h : FrameInv (some ppn) k) (hp : k.HasPage s v)
    (hvpn : (k.page s v).virtualPage = v)
    (habsent : ∀ f < NumPhysPages, (k.IPT f).valid = true → (k.IPT f).PID = s →
      (k.IPT f).virtualPage ≠ v) (hr : Recorded k s v ppn k') : FrameInv none k' := by
  obtain ⟨hlt, hbit, hinvalid⟩ := h.taken ppn rfl
  have hnum := numPages_of_shape hr.shape
  refine ⟨by rw [hr.frames]; exact h.numBits, ?_, by simp, ?_, ?_, ?_, ?_, ?_⟩
  · intro f hf _
    rw [hr.frames, hr.IPT]
    by_cases hne : f = ppn
    · subst hne; simp [hbit]
    · rw [if_neg hne]
      exact h.bits f hf (by simpa using fun heq => hne heq.symm)
  · intro f hf hv
    by_cases hne : f = ppn
    · subst hne
      rw [hr.IPT, if_pos rfl]
      simp only [Kernel.HasPage, hnum, hvpn, hr.page, and_self, if_true]
      exact ⟨hp, trivial⟩
    · rw [hr.IPT, if_neg hne] at hv ⊢
      have hother := habsent f hf hv
      rw [Kernel.HasPage, hnum, hr.page, if_neg (by tauto)]
      exact h.entry f hf hv
  · intro f hf hv
    by_cases hne : f = ppn
    · subst hne; rw [hr.IPT, if_pos rfl]
    · rw [hr.IPT, if_neg hne] at hv ⊢
      exact h.frame f hf hv
  · intro t w ht hv hm
    by_cases heq : t = s ∧ w = v
    · refine ⟨ppn, hlt, ?_⟩
      rw [hr.IPT, if_pos rfl]
      exact ⟨rfl, heq.1.symm, by rw [heq.2]; exact hvpn⟩
    · rw [hr.page, if_neg heq] at hv hm
      rw [Kernel.HasPage, hnum] at ht
      obtain ⟨f, hf, hfv, hfs, hfp⟩ := h.page t w ht hv hm
      have hne : f ≠ ppn := by
        rintro rfl
        rw [hinvalid] at hfv
        cases hfv
      refine ⟨f, hf, ?_⟩
      rw [hr.IPT, if_neg hne]
      exact ⟨hfv, hfs, hfp⟩
  · intro f hf
    rw [hr.FIFOList] at hf
    rcases List.mem_append.mp hf with hf | hf
    · exact h.queue f hf
    · rw [List.mem_singleton.mp hf]; exact hlt
  · have hlen := h.queueLength
    rw [hr.frames, hr.FIFOList]
    simpa using hlen

/-! ## Freeing a page -/

/-- One turn of the loops of `Exit` and of the destructor. -/
theorem freed {s v : Nat} (h : FrameInv none k) (hp : k.HasPage s v) (hf : PageFreed k s v k') :
    FrameInv none k' := by
  have hnum := numPages_of_shape hf.shape
  by_cases hres : (k.page s v).valid = true ∧ (k.page s v).location = .MAIN
  · obtain ⟨g, hg, hpp, hgv, hgs, hgp⟩ := h.pageFrame hp hres.1 hres.2
    obtain ⟨hbits, hIPT, -⟩ := hf.main hres.1 hres.2
    have hto : (k.page s v).physicalPage.toNat = g := by omega
    rw [hto] at hbits hIPT
    have hother : ∀ f < NumPhysPages, f ≠ g → (k.IPT f).valid = true →
        ¬ ((k.IPT f).PID = s ∧ (k.IPT f).virtualPage = v) := by
      rintro f hlt hne hv ⟨h1, h2⟩
      exact hne (h.frame_unique hlt hg hv hgv (h1.trans hgs.symm) (h2.trans hgp.symm))
    have hbit : k.pageTableBitMap.test g = true := (h.bits g hg (by simp)).mpr hgv
    refine ⟨by rw [hbits]; exact h.numBits, ?_, by simp, ?_, ?_, ?_, ?_, ?_⟩
    · intro f hlt _
      rw [hbits, hIPT, BitMap.test_clear]
      by_cases hne : f = g
      · simp [hne]
      · rw [if_neg hne, if_neg hne]
        exact h.bits f hlt (by simp)
    · intro f hlt hv
      by_cases hne : f = g
      · simp [hIPT, hne] at hv
      · rw [hIPT, if_neg hne] at hv ⊢
        rw [Kernel.HasPage, hnum, hf.other _ _ (hother f hlt hne hv)]
        exact h.entry f hlt hv
    · intro f hlt hv
      by_cases hne : f = g
      · simp [hIPT, hne] at hv
      · rw [hIPT, if_neg hne] at hv ⊢
        exact h.frame f hlt hv
    · intro t w ht hv hm
      by_cases heq : t = s ∧ w = v
      · rw [heq.1, heq.2, hf.invalid] at hv
        cases hv
      · rw [hf.other t w heq] at hv hm
        rw [Kernel.HasPage, hnum] at ht
        obtain ⟨f, hlt, hfv, hfs, hfp⟩ := h.page t w ht hv hm
        have hne : f ≠ g := by
          rintro rfl
          exact heq ⟨hfs.symm.trans hgs, hfp.symm.trans hgp⟩
        refine ⟨f, hlt, ?_⟩
        rw [hIPT, if_neg hne]
        exact ⟨hfv, hfs, hfp⟩
    · exact fun f hmem => h.queue f (hf.queue f hmem)
    · have hlen := h.queueLength
      have hcount := BitMap.count_clear (by rw [h.numBits]; exact hg) hbit
      have hq := hf.queueLength
      simp only [Option.isSome_none, Bool.false_eq_true, if_false, hbits] at hlen ⊢
      omega
  · obtain ⟨hbits, hIPT, hfifo⟩ := hf.notMain hres
    -- no frame names the page, so invalidating it is seen by no IPT entry
    have hother : ∀ f < NumPhysPages, (k.IPT f).valid = true →
        ¬ ((k.IPT f).PID = s ∧ (k.IPT f).virtualPage = v) := by
      rintro f hlt hv ⟨rfl, rfl⟩
      have hent := h.entry f hlt hv
      exact hres ⟨hent.2.1, hent.2.2.1⟩
    refine ⟨by rw [hbits]; exact h.numBits, ?_, by simp, ?_, ?_, ?_, ?_, ?_⟩
    · rw [hbits, hIPT]; exact h.bits
    · intro f hlt hv
      rw [hIPT] at hv ⊢
      rw [Kernel.HasPage, hnum, hf.other _ _ (hother f hlt hv)]
      exact h.entry f hlt hv
    · rw [hIPT]; exact h.frame
    · intro t w ht hv hm
      by_cases heq : t = s ∧ w = v
      · rw [heq.1, heq.2, hf.invalid] at hv
        cases hv
      · rw [hf.other t w heq] at hv hm
        rw [Kernel.HasPage, hnum] at ht
        rw [hIPT]
        exact h.page t w ht hv hm
    · rw [hfifo]; exact h.queue
    · rw [hbits, hfifo]; exact h.queueLength

/-! ## Faults -/

theorem loaded (h : FrameInv hole k) {sp : AddrSpace} {v ppn : Nat}
    (hl : loadPage k sp v ppn = .ok k') : FrameInv hole k' := by
  have hk' := loadPage_same hl
  exact h.congr (by rw [hk']) (by rw [hk']; simp) (by rw [hk']; simp) (by rw [hk']; simp)
    (by rw [hk']; simp) (by rw [hk']; rfl) (by rw [hk']; rfl) (by rw [hk'])

theorem findFrame_sameLayout (h : FrameInv none k) {r ppn : Nat}
    (hf : VM.findFrame k r = .ok (k', ppn)) : SameLayout k k' := by
  rcases findFrame_spec hf with ⟨m, -, rfl⟩ | ⟨-, hfull⟩
  · exact ⟨rfl, fun _ _ => rfl, rfl, rfl, rfl, rfl⟩
  · obtain ⟨-, hlt, hvalid, he⟩ := handleMemoryFull_spec hfull
    exact (tlbOnly_dropFrame k ppn).sameLayout.trans (he (h.entry ppn hlt hvalid).1).sameLayout

/-- A page without a frame still has none once `findFrame` has found one. -/
theorem findFrame_absent (h : FrameInv none k) {r ppn s v : Nat}
    (hf : VM.findFrame k r = .ok (k', ppn)) (hl : lookupIPT k s v = none) :
    ∀ f < NumPhysPages, (k'.IPT f).valid = true → (k'.IPT f).PID = s →
      (k'.IPT f).virtualPage ≠ v := by
  intro f hlt hv hs
  rcases findFrame_spec hf with ⟨m, -, rfl⟩ | ⟨-, hfull⟩
  · exact lookupIPT_none hl hlt hv hs
  · obtain ⟨-, hplt, hvalid, he⟩ := handleMemoryFull_spec hfull
    have he := he (h.entry ppn hplt hvalid).1
    have ht := tlbOnly_dropFrame k ppn
    by_cases hne : f = ppn
    · subst hne; simp [he.IPT] at hv
    · rw [he.IPT, if_neg hne] at hv hs ⊢
      rw [ht.valid] at hv
      rw [ht.PID] at hs
      rw [ht.virtualPage]
      exact lookupIPT_none hl hlt hv hs

/-- Nor is such a page the one that was evicted. -/
theorem findFrame_page (h : FrameInv none k) {r ppn s v : Nat}
    (hf : VM.findFrame k r = .ok (k', ppn)) (hl : lookupIPT k s v = none) :
    k'.page s v = k.page s v := by
  rcases findFrame_spec hf with ⟨m, -, rfl⟩ | ⟨-, hfull⟩
  · rfl
  · obtain ⟨-, hlt, hvalid, he⟩ := handleMemoryFull_spec hfull
    have ht := tlbOnly_dropFrame k ppn
    rw [(he (h.entry ppn hlt hvalid).1).other s v, ht.page]
    rw [ht.PID, ht.virtualPage]
    rintro ⟨rfl, rfl⟩
    exact lookupIPT_none hl hlt hvalid rfl rfl

end FrameInv

/-- A fault that had to bring its page in: the states between `findFrame`, `loadPage`,
`recordLoad` and the TLB update. -/
structure FaultedIn (k : Kernel) (s v r : Nat) (k₁ : Kernel) (ppn : Nat) (sp : AddrSpace)
    (k₂ k₃ : Kernel) : Prop where
  absent : ∀ f < NumPhysPages, (k₁.IPT f).valid = true → (k₁.IPT f).PID = s →
    (k₁.IPT f).virtualPage ≠ v
  found : findFrame k r = .ok (k₁, ppn)
  foundInv : FrameInv (some ppn) k₁
  foundLayout : SameLayout k k₁
  foundPage : k₁.page s v = k.page s v
  space : k₁.spaces s = some sp
  page : k₁.HasPage s v
  load : loadPage k₁ sp v ppn = .ok k₂
  recorded : Recorded k₂ s v ppn k₃
  recordedInv : FrameInv none k₃

/-- **A page fault**, in a state with exact tables: the page is resident and only the TLB
moves, or it is faulted in. -/
theorem handleTLBMiss_cases {k k' : Kernel} {s VA r : Nat} (hs : SpaceInv k)
    (h : FrameInv none k) (hm : handleTLBMiss k s VA r = .ok k') :
    (∃ ppn, lookupIPT k s (VA / PageSize) = some ppn ∧ k' = populateTLBFromIPTEntry k ppn) ∨
    (∃ k₁ ppn sp k₂ k₃, lookupIPT k s (VA / PageSize) = none ∧
      FaultedIn k s (VA / PageSize) r k₁ ppn sp k₂ k₃ ∧
      k' = populateTLBFromIPTEntry k₃ ppn) := by
  obtain ⟨k₃, ppn, rfl, ⟨rfl, hl⟩ | ⟨hl, hmiss⟩⟩ := handleTLBMiss_spec hm
  · exact .inl ⟨ppn, hl, rfl⟩
  · obtain ⟨k₁, sp, k₂, hfind, hsp, hv, hload, rfl⟩ := handleIPTmiss_spec hmiss
    have hinv := h.findFrame hfind
    have hlay := h.findFrame_sameLayout hfind
    have habs := h.findFrame_absent hfind hl
    have hp₁ : k₁.HasPage s (VA / PageSize) := by simpa [Kernel.HasPage, Kernel.numPages, hsp]
    have hlay₂ := loadPage_sameLayout hload
    have hp₂ := (hlay₂.hasPage s (VA / PageSize)).mpr hp₁
    have hrec := recordLoad_spec ppn hp₂
    have hvpn : (k₂.page s (VA / PageSize)).virtualPage = VA / PageSize := by
      rw [hlay₂.virtualPage, hlay.virtualPage]
      exact hs.vpn s _ ((hlay.hasPage s _).mp hp₁)
    have habs₂ : ∀ f < NumPhysPages, (k₂.IPT f).valid = true → (k₂.IPT f).PID = s →
        (k₂.IPT f).virtualPage ≠ VA / PageSize := by
      rw [loadPage_same hload]
      exact habs
    exact .inr ⟨k₁, ppn, sp, k₂, _, hl, ⟨habs, hfind, hinv, hlay,
      h.findFrame_page hfind hl, hsp, hp₁, hload, hrec,
      (hinv.loaded hload).recorded hp₂ hvpn habs₂ hrec⟩, rfl⟩

theorem handleTLBMiss_sameLayout {k k' : Kernel} {s VA r : Nat} (hs : SpaceInv k)
    (h : FrameInv none k) (hm : handleTLBMiss k s VA r = .ok k') : SameLayout k k' := by
  rcases handleTLBMiss_cases hs h hm with ⟨ppn, -, rfl⟩ | ⟨k₁, ppn, sp, k₂, k₃, -, hf, rfl⟩
  · exact (tlbOnly_populate k ppn).sameLayout
  · exact ((hf.foundLayout.trans (loadPage_sameLayout hf.load)).trans
      hf.recorded.sameLayout).trans (tlbOnly_populate k₃ ppn).sameLayout

namespace FrameInv

variable {k k' : Kernel}

theorem missed (h : FrameInv none k) (hs : SpaceInv k) {s VA r : Nat}
    (hm : handleTLBMiss k s VA r = .ok k') : FrameInv none k' := by
  rcases handleTLBMiss_cases hs h hm with ⟨ppn, -, rfl⟩ | ⟨k₁, ppn, sp, k₂, k₃, -, hf, rfl⟩
  · exact h.tlbOnly (tlbOnly_populate k ppn)
  · exact hf.recordedInv.tlbOnly (tlbOnly_populate k₃ ppn)

/-! ## Spaces -/

/-- A space that gains empty pages. -/
theorem extended (h : FrameInv none k) {s : Nat} {sp : AddrSpace} (he : Extended k s sp) :
    FrameInv none (k.setSpace s sp) where
  numBits := h.numBits
  bits := h.bits
  taken := h.taken
  entry f hf hv := by
    obtain ⟨hp, hpage⟩ := he.hasPage (h.entry f hf hv).1
    refine ⟨hp, ?_⟩
    show ((k.setSpace s sp).page (k.IPT f).PID (k.IPT f).virtualPage).valid = true ∧
      ((k.setSpace s sp).page (k.IPT f).PID (k.IPT f).virtualPage).location = .MAIN ∧
      ((k.setSpace s sp).page (k.IPT f).PID (k.IPT f).virtualPage).physicalPage = f
    rw [hpage]
    exact (h.entry f hf hv).2
  frame := h.frame
  page t v hp hv hm := by
    rcases he.cases hp with ⟨hold, hpage⟩ | ⟨-, hinv, -⟩
    · rw [hpage] at hv hm
      exact h.page t v hold hv hm
    · rw [hinv] at hv; cases hv
  queue := h.queue
  queueLength := h.queueLength

/-- A space without resident pages can go. -/
theorem dropped (h : FrameInv none k) {s : Nat}
    (hempty : ∀ v, k.HasPage s v → (k.page s v).valid = false) :
    FrameInv none { k with spaces := Function.update k.spaces s none } := by
  have hpid : ∀ f < NumPhysPages, (k.IPT f).valid = true → (k.IPT f).PID ≠ s := by
    rintro f hf hv rfl
    have hent := h.entry f hf hv
    rw [hempty _ hent.1] at hent
    exact absurd hent.2.1 (by simp)
  have hold : ∀ t, t ≠ s → (Function.update k.spaces s none) t = k.spaces t :=
    fun t ht => Function.update_of_ne ht _ _
  refine ⟨h.numBits, h.bits, h.taken, fun f hf hv => ?_, h.frame, fun t v hp hv hm => ?_,
    h.queue, h.queueLength⟩
  · simp only [Kernel.HasPage, Kernel.numPages, Kernel.page, hold _ (hpid f hf hv)]
    exact h.entry f hf hv
  · by_cases ht : t = s
    · simp [Kernel.HasPage, Kernel.numPages, ht] at hp
    · simp only [Kernel.HasPage, Kernel.numPages, Kernel.page, hold _ ht] at hp hv hm
      exact h.page t v hp hv hm

theorem exited (h : FrameInv none k) {s : Nat} {pages : List Nat}
    (hpages : ∀ v ∈ pages, k.HasPage s v) : FrameInv none (clearStack k s pages) := by
  have hloop := exitLoop_rule (pages.take 8) (fun v hv => hpages v (List.mem_of_mem_take hv))
    (fun k₁ v _ _ hp hk₁ => hk₁.freed hp (exitPage_spec hp)) h
  exact hloop.2.tlbOnly (tlbOnly_saveState _)

theorem deleted (h : FrameInv none k) {s : Nat} {junk : Nat → Int} :
    FrameInv none (deleteSpace k s junk) := by
  obtain ⟨hlay, -, hinv, hloop⟩ := deleteLoop_rule s junk
    (fun n hn hlay hv hk₁ => hk₁.freed ((hlay.hasPage s n).mpr hn)
      (deletePage_spec junk ((hlay.hasPage s n).mpr hn) hv)) h le_rfl
  have ht := tlbOnly_saveState (deleteLoop k s junk (k.numPages s))
  refine (hloop.tlbOnly ht).dropped fun v hp => ?_
  rw [ht.page]
  exact hinv v ((hlay.hasPage s v).mp ((ht.hasPage s v).mp hp))

end FrameInv

/-! ## The spaces stay well formed -/

namespace SpaceInv

variable {k k' : Kernel}

theorem sameLayout (h : SpaceInv k) (hl : SameLayout k k') : SpaceInv k' where
  vpn s v hp := by rw [hl.virtualPage]; exact h.vpn s v ((hl.hasPage s v).mp hp)
  stack s sp tid pages hs ht v hv := by
    have hshape := (congrFun hl.shape s).symm.trans (shape_some hs)
    simp only [Kernel.shape, Option.map_eq_some_iff] at hshape
    obtain ⟨sp₀, hs₀, heq⟩ := hshape
    injection heq with _ hnum _ _ htab
    rw [← hnum]
    exact h.stack s sp₀ tid pages hs₀ (htab ▸ ht) v hv
  fresh s hs := by
    have hshape := congrFun hl.shape s
    rw [hl.spaceCount] at hs
    simpa [Kernel.shape, h.fresh s hs] using hshape

/-- A space written back with more pages, all of whose recorded stacks are in range. -/
theorem extended (h : SpaceInv k) {s : Nat} {sp : AddrSpace} (he : Extended k s sp)
    (hstack : ∀ tid pages, sp.threadTable tid = some pages → ∀ v ∈ pages, v < sp.numPages)
    (hk' : k' = { k.setSpace s sp with spaceCount := k'.spaceCount, threads := k'.threads })
    (hcount : k.spaceCount ≤ k'.spaceCount) (hs : s < k'.spaceCount) : SpaceInv k' := by
  have hspaces : k'.spaces = Function.update k.spaces s (some sp) := by rw [hk']; rfl
  refine ⟨fun t v hp => ?_, fun t sp' tid pages ht hpg v hv => ?_, fun t ht => ?_⟩
  · have hpage : k'.page = (k.setSpace s sp).page := by rw [hk']; rfl
    have hp' : (k.setSpace s sp).HasPage t v := by rw [hk'] at hp; exact hp
    rw [hpage]
    rcases he.cases hp' with ⟨hold, heq⟩ | ⟨-, -, -, hvpn⟩
    · rw [heq]; exact h.vpn t v hold
    · exact hvpn
  · rw [hspaces, Function.update_apply] at ht
    split at ht
    · cases ht
      exact hstack tid pages hpg v hv
    · exact h.stack t sp' tid pages ht hpg v hv
  · rw [hspaces, Function.update_of_ne (by omega)]
    exact h.fresh t (by omega)

theorem dropped (h : SpaceInv k) (s : Nat) :
    SpaceInv { k with spaces := Function.update k.spaces s none } := by
  refine ⟨fun t v hp => ?_, fun t sp tid pages ht hpg v hv => ?_, fun t ht => ?_⟩
  · by_cases hts : t = s
    · simp [Kernel.HasPage, Kernel.numPages, hts] at hp
    · simp only [Kernel.HasPage, Kernel.numPages, Kernel.page, Function.update_of_ne hts] at hp ⊢
      exact h.vpn t v hp
  · simp only [Function.update_apply] at ht
    split at ht
    · cases ht
    · exact h.stack t sp tid pages ht hpg v hv
  · simp only [Function.update_apply]
    split
    · rfl
    · exact h.fresh t ht

end SpaceInv

/-! ## The whole machine -/

/-- Well-formed spaces with exact frame accounting. -/
structure Sound (k : Kernel) : Prop where
  spaces : SpaceInv k
  frames : FrameInv none k

namespace Sound

variable {k k' : Kernel}

theorem init (useFIFO : Bool) : Sound (Kernel.init useFIFO) := by
  refine ⟨⟨fun s v hp => ?_, fun s sp tid pages hs => ?_, fun _ _ => rfl⟩,
    ⟨rfl, fun f _ _ => ?_, fun f hf => ?_, fun f _ hv => ?_, fun f _ hv => ?_, fun s v hp => ?_,
      fun f hf => ?_, ?_⟩⟩
  · simp [Kernel.HasPage, Kernel.numPages, Kernel.init] at hp
  · simp [Kernel.init] at hs
  · simp [Kernel.init, BitMap.new, BitMap.test]
  · cases hf
  · simp [Kernel.init] at hv
  · simp [Kernel.init] at hv
  · simp [Kernel.HasPage, Kernel.numPages, Kernel.init] at hp
  · simp [Kernel.init] at hf
  · simp [Kernel.init, BitMap.count, BitMap.new, BitMap.test]

theorem tlbOnly (h : Sound k) (ht : TLBOnly k k') : Sound k' :=
  ⟨h.spaces.sameLayout ht.sameLayout, h.frames.tlbOnly ht⟩

/-- The pages of a recorded stack exist. -/
theorem stackPages (h : Sound k) {s tid : Nat} {sp : AddrSpace} {pages : List Nat}
    (hs : k.spaces s = some sp) (hpages : sp.threadTable tid = some pages) :
    ∀ v ∈ pages, k.HasPage s v := by
  intro v hv
  simp only [Kernel.HasPage, Kernel.numPages, hs]
  exact h.spaces.stack s sp tid pages hs hpages v hv

/-- The tables do not depend on the threads or on the bytes in memory. -/
theorem threads (h : Sound k) (hk' : k' = { k with
    threads := k'.threads, threadIDCount := k'.threadIDCount, currentThread := k'.currentThread,
    mainMemory := k'.mainMemory }) : Sound k' := by
  rw [hk']
  exact ⟨⟨h.spaces.vpn, h.spaces.stack, h.spaces.fresh⟩,
    ⟨h.frames.numBits, h.frames.bits, h.frames.taken, h.frames.entry, h.frames.frame,
      h.frames.page, h.frames.queue, h.frames.queueLength⟩⟩

theorem missed (h : Sound k) {s VA r : Nat} (hm : handleTLBMiss k s VA r = .ok k') : Sound k' :=
  ⟨h.spaces.sameLayout (handleTLBMiss_sameLayout h.spaces h.frames hm),
    h.frames.missed h.spaces hm⟩

theorem created (h : Sound k) (tid : Nat) (exe : Executable) : Sound (createSpace k tid exe) := by
  have he := extended_new (h.spaces.fresh k.spaceCount le_rfl) exe tid
  have hf := h.frames.extended he
  refine ⟨h.spaces.extended he ?_ rfl (Nat.le_succ _) (Nat.lt_succ_self _), ⟨hf.numBits, hf.bits,
    hf.taken, hf.entry, hf.frame, hf.page, hf.queue, hf.queueLength⟩⟩
  intro t pages hpages v hv
  simp only [AddrSpace.new, Function.update_apply] at hpages ⊢
  split at hpages
  · cases hpages
    have := List.mem_range'_1.mp hv
    omega
  · cases hpages

theorem forked (h : Sound k) {s : Nat} {sp : AddrSpace} (hs : k.spaces s = some sp) (tid : Nat)
    (junk : Nat → Int) : Sound (k.setSpace s (sp.fork tid junk)) := by
  have he := extended_fork hs tid junk
  have hlive : s < k.spaceCount := by
    by_contra hge
    rw [h.spaces.fresh s (by omega)] at hs
    cases hs
  refine ⟨h.spaces.extended he ?_ rfl le_rfl hlive, h.frames.extended he⟩
  intro t pages hpages v hv
  simp only [AddrSpace.fork, Function.update_apply] at hpages ⊢
  split at hpages
  · cases hpages
    have := List.mem_range'_1.mp hv
    omega
  · have := h.spaces.stack s sp t pages hs hpages v hv
    omega

theorem exited (h : Sound k) {s : Nat} {pages : List Nat} (hpages : ∀ v ∈ pages, k.HasPage s v) :
    Sound (clearStack k s pages) := by
  refine ⟨?_, h.frames.exited hpages⟩
  have hloop := exitLoop_rule (I := fun _ => True) (pages.take 8)
    (fun v hv => hpages v (List.mem_of_mem_take hv)) (fun _ _ _ _ _ _ => trivial) trivial
  exact h.spaces.sameLayout (hloop.1.trans (tlbOnly_saveState _).sameLayout)

theorem deleted (h : Sound k) (s : Nat) (junk : Nat → Int) : Sound (deleteSpace k s junk) := by
  refine ⟨?_, h.frames.deleted⟩
  have hloop := deleteLoop_rule (I := fun _ => True) s junk (fun _ _ _ _ _ => trivial)
    (k := k) trivial le_rfl
  exact (h.spaces.sameLayout (hloop.1.trans (tlbOnly_saveState _).sameLayout)).dropped s

/-- **One step of the machine keeps the tables exact.** -/
theorem stepSpec {op : Op} {event : Event} (h : Sound k) (hstep : StepSpec k op k' event) :
    Sound k' := by
  cases hstep with
  | loadHit hrun htr => exact h.tlbOnly (tlbOnly_translate htr)
  | storeHit hrun htr => exact (h.tlbOnly (tlbOnly_translate htr)).threads rfl
  | miss hop hrun hmiss hfault => exact h.missed hfault
  | run hthread =>
    unfold schedulerRun
    split
    · exact (h.tlbOnly (tlbOnly_saveState k)).threads rfl
    · exact h.threads rfl
  | newThread space hspace => exact h.threads rfl
  | create hcur hthread exe => exact h.created _ exe
  | fork hrun hfresh junk => exact h.forked (running_some hrun).2.2.1 _ junk
  | exit hrun hpages =>
    exact (h.exited (h.stackPages (running_some hrun).2.2.1 hpages)).threads rfl
  | delete hrun junk => exact (h.deleted _ junk).threads rfl

theorem step {op : Op} (h : Sound k) (hstep : Step k op k') : Sound k' := by
  obtain ⟨hen, event, hnext⟩ := hstep
  exact h.stepSpec (next_spec hen hnext)

end Sound

/-- The tables are exact in every reachable state. -/
theorem sound_of_reachable {useFIFO : Bool} {k : Kernel}
    (h : Lib.Reachable Step (Kernel.init useFIFO) k) : Sound k :=
  h.invariant (Sound.init useFIFO) fun _ _ _ hs hstep => hs.step hstep

/-- With every frame in use, the queue has as many entries as there are frames. -/
theorem FrameInv.victim {k : Kernel} (h : FrameInv none k)
    (hfull : ∀ f < NumPhysPages, k.pageTableBitMap.test f = true) (r : Nat) :
    ∃ ppn, chooseVictim k r = .ok ppn ∧ ppn < NumPhysPages ∧ (k.IPT ppn).valid = true := by
  have hvalid : ∀ f < NumPhysPages, (k.IPT f).valid = true := fun f hf =>
    (h.bits f hf (by simp)).mp (hfull f hf)
  unfold chooseVictim
  cases k.USEFIFO with
  | false =>
    have hr : r % NumPhysPages < NumPhysPages := Nat.mod_lt _ (by decide)
    exact ⟨_, rfl, hr, hvalid _ hr⟩
  | true =>
    cases hq : k.FIFOList with
    | nil =>
      have hcount := BitMap.count_full (m := k.pageTableBitMap) (by rw [h.numBits]; exact hfull)
      have hlen := h.queueLength
      rw [hcount, h.numBits, hq] at hlen
      exact absurd hlen (by decide)
    | cons ppn rest =>
      have hlt := h.queue ppn (by rw [hq]; exact List.mem_cons_self)
      exact ⟨ppn, rfl, hlt, hvalid ppn hlt⟩

/-- `writePageToSwap` is the only part of `handleMemoryFull` after its victim is checked
that stops the machine. -/
theorem recordEviction_error {k : Kernel} {ppn : Nat} {stop : Stop}
    (h : recordEviction k ppn = .error stop) : stop = .swapFull := by
  unfold recordEviction writePageToSwap at h
  cases hd : (k.IPT ppn).dirty <;> cases hv : (k.IPT ppn).valid <;>
    simp only [hd, hv, Bool.and_true, Bool.and_false, Bool.and_self, Bool.false_eq_true, if_false,
      if_true] at h
  all_goals first
    | cases h
    | (split at h
       · rename_i heq
         split at heq
         · cases heq; cases h; rfl
         · cases heq
       · cases h)

theorem FrameInv.findFrame_error {k : Kernel} (h : FrameInv none k) {r : Nat} {stop : Stop}
    (hf : VM.findFrame k r = .error stop) : stop = .swapFull := by
  unfold VM.findFrame at hf
  split at hf
  · cases hf
  · rename_i hfind
    have hfull := (BitMap.find_none hfind).1
    rw [h.numBits] at hfull
    obtain ⟨ppn, hchoose, hlt, hv⟩ := h.victim hfull r
    simp only [handleMemoryFull, hchoose, if_pos (And.intro hlt hv)] at hf
    cases hrec : recordEviction (dropFrameFromTLB k ppn) ppn with
    | error stop' =>
      simp only [hrec] at hf
      cases hf
      exact recordEviction_error hrec
    | ok k₁ => simp [hrec] at hf

/-- A fault does not stop at an assertion of `handleMemoryFull`, nor for want of a victim. -/
theorem FrameInv.handleIPTmiss_asserts {k : Kernel} (h : FrameInv none k) (s v r : Nat) :
    handleIPTmiss k s v r ≠ .error .assertFailed ∧ handleIPTmiss k s v r ≠ .error .noVictim := by
  unfold handleIPTmiss
  cases hf : VM.findFrame k r with
  | error stop => simp [h.findFrame_error hf]
  | ok res =>
    obtain ⟨k₁, ppn⟩ := res
    cases hs : k₁.spaces s with
    | none => simp [hs]
    | some sp =>
      simp only [hs]
      split
      · cases hl : loadPage k₁ sp v ppn with
        | ok k₂ => simp
        | error stop =>
          have hstop : stop = .badSeek := by
            unfold loadPage readPageFromExecutable at hl
            split at hl
            · split at hl
              · cases hl; rfl
              · cases hl
            · cases hl
            · cases hl
            · cases hl
          simp [hstop]
      · simp

/-- **Frame accounting.** In every reachable state the frame bitmap, the IPT and the page
tables describe one injective map from frames to pages, and no fault fails an assertion of
`handleMemoryFull`, under either policy. -/
theorem frame_accounting {useFIFO : Bool} {k : Kernel}
    (h : Lib.Reachable Step (Kernel.init useFIFO) k) :
    (∀ f < NumPhysPages, k.pageTableBitMap.test f = true ↔ (k.IPT f).valid = true) ∧
    (∀ f < NumPhysPages, (k.IPT f).valid = true →
      k.HasPage (k.IPT f).PID (k.IPT f).virtualPage ∧
      (k.page (k.IPT f).PID (k.IPT f).virtualPage).valid = true ∧
      (k.page (k.IPT f).PID (k.IPT f).virtualPage).location = .MAIN ∧
      (k.page (k.IPT f).PID (k.IPT f).virtualPage).physicalPage = (f : Int)) ∧
    (∀ s v, k.HasPage s v → (k.page s v).valid = true → (k.page s v).location = .MAIN →
      ∃! f, f < NumPhysPages ∧ (k.IPT f).valid = true ∧ (k.IPT f).PID = s ∧
        (k.IPT f).virtualPage = v) ∧
    (∀ s v t w, k.HasPage s v → (k.page s v).valid = true → (k.page s v).location = .MAIN →
      k.HasPage t w → (k.page t w).valid = true → (k.page t w).location = .MAIN →
      (k.page s v).physicalPage = (k.page t w).physicalPage → s = t ∧ v = w) ∧
    (∀ s v r, handleIPTmiss k s v r ≠ .error .assertFailed ∧
      handleIPTmiss k s v r ≠ .error .noVictim) := by
  have hinv := (sound_of_reachable h).frames
  refine ⟨fun f hf => hinv.bits f hf (by simp), hinv.entry, fun s v hp hv hm => ?_,
    fun s v t w hp hv hm hp' hv' hm' heq => ?_, hinv.handleIPTmiss_asserts⟩
  · obtain ⟨f, hf, hfv, hfs, hfp⟩ := hinv.page s v hp hv hm
    refine ⟨f, ⟨hf, hfv, hfs, hfp⟩, ?_⟩
    rintro g ⟨hg, hgv, hgs, hgp⟩
    exact hinv.frame_unique hg hf hgv hfv (hgs.trans hfs.symm) (hgp.trans hfp.symm)
  · obtain ⟨f, -, hpp, -, hfs, hfp⟩ := hinv.pageFrame hp hv hm
    obtain ⟨g, -, hpp', -, hgs, hgp⟩ := hinv.pageFrame hp' hv' hm'
    have hfg : f = g := by omega
    subst hfg
    exact ⟨hfs.symm.trans hgs, hfp.symm.trans hgp⟩

/-- A program of 40 pages that reads 33 of them: more than there are frames. -/
def fillMemory : List Op :=
  .create (.blank (40 * PageSize)) :: (List.range 33).map fun v => .load (v * PageSize) 0

set_option maxRecDepth 100000 in
theorem frame_accounting_full_memory :
    ∃ k, Lib.Reachable Step (Kernel.init true) k ∧ (k.IPT 0).virtualPage = 32 ∧
      (k.IPT 0).valid = true ∧ k.FIFOList.length = 32 ∧
      (∀ f < NumPhysPages, k.pageTableBitMap.test f = true ↔ (k.IPT f).valid = true) := by
  have hrun : (Lib.execute step? (Kernel.init true) fillMemory).any (fun k =>
      decide ((k.IPT 0).virtualPage = 32 ∧ (k.IPT 0).valid = true ∧ k.FIFOList.length = 32)) =
        true := by
    decide +kernel
  obtain ⟨k, hk, hp⟩ := (Option.any_eq_true _ _).mp hrun
  have hreach : Lib.Reachable Step (Kernel.init true) k :=
    ⟨_, Lib.path_of_execute (fun _ _ _ => step_of_step?) hk⟩
  obtain ⟨hv, hval, hlen⟩ := of_decide_eq_true hp
  exact ⟨k, hreach, hv, hval, hlen, (frame_accounting hreach).1⟩

end VM

end Nachos

import Nachos.VM.System

/-!
# What the paging functions change

The functions of the fault path, said once as facts about the state they leave, so that no
invariant proof opens them again.

* **`TLBOnly`** — the TLB and the dirty bits of the IPT moved, nothing else. This covers
  `populateTLBFromIPTEntry`, `SaveState`, the TLB loop of `handleMemoryFull` and
  `Translate`.
* **`Evicted`** — the two ways `handleMemoryFull` ends.
* **`handleIPTmiss_spec`, `handleTLBMiss_spec`** — the fault path as a chain of these.
-/

namespace Nachos.VM

/-! ## Steps that move only the TLB and dirty bits -/

/-- `k'` is `k` up to the TLB, and its IPT entries are those of `k` with possibly more
dirty bits. -/
structure TLBOnly (k k' : Kernel) : Prop where
  same : k' = { k with tlb := k'.tlb, currentTLB := k'.currentTLB, IPT := k'.IPT }
  entry : ∀ f, k'.IPT f = { k.IPT f with dirty := (k'.IPT f).dirty }
  dirty : ∀ f, (k.IPT f).dirty = true → (k'.IPT f).dirty = true

namespace TLBOnly

variable {k k' k'' : Kernel}

theorem refl (k : Kernel) : TLBOnly k k := ⟨rfl, fun _ => rfl, fun _ h => h⟩

theorem trans (h : TLBOnly k k') (h' : TLBOnly k' k'') : TLBOnly k k'' := by
  refine ⟨?_, fun f => ?_, fun f hf => h'.dirty f (h.dirty f hf)⟩
  · rw [h'.same, h.same]
  · rw [h'.entry f, h.entry f]

theorem spaces (h : TLBOnly k k') : k'.spaces = k.spaces := by rw [h.same]
theorem page (h : TLBOnly k k') : k'.page = k.page := by rw [h.same]; rfl
theorem shape (h : TLBOnly k k') : k'.shape = k.shape := by rw [h.same]; rfl
theorem numPages (h : TLBOnly k k') : k'.numPages = k.numPages := by rw [h.same]; rfl
theorem frames (h : TLBOnly k k') : k'.pageTableBitMap = k.pageTableBitMap := by rw [h.same]
theorem swap (h : TLBOnly k k') : k'.swapBitMap = k.swapBitMap := by rw [h.same]
theorem FIFOList (h : TLBOnly k k') : k'.FIFOList = k.FIFOList := by rw [h.same]
theorem mainMemory (h : TLBOnly k k') : k'.mainMemory = k.mainMemory := by rw [h.same]
theorem swapFile (h : TLBOnly k k') : k'.swapFile = k.swapFile := by rw [h.same]
theorem spaceCount (h : TLBOnly k k') : k'.spaceCount = k.spaceCount := by rw [h.same]
theorem threads (h : TLBOnly k k') : k'.threads = k.threads := by rw [h.same]
theorem threadIDCount (h : TLBOnly k k') : k'.threadIDCount = k.threadIDCount := by rw [h.same]
theorem currentThread (h : TLBOnly k k') : k'.currentThread = k.currentThread := by rw [h.same]
theorem loads (h : TLBOnly k k') : k'.loads = k.loads := by rw [h.same]
theorem loadedAt (h : TLBOnly k k') : k'.loadedAt = k.loadedAt := by rw [h.same]
theorem valid (h : TLBOnly k k') (f : Nat) : (k'.IPT f).valid = (k.IPT f).valid := by rw [h.entry f]
theorem PID (h : TLBOnly k k') (f : Nat) : (k'.IPT f).PID = (k.IPT f).PID := by rw [h.entry f]
theorem virtualPage (h : TLBOnly k k') (f : Nat) :
    (k'.IPT f).virtualPage = (k.IPT f).virtualPage := by rw [h.entry f]
theorem physicalPage (h : TLBOnly k k') (f : Nat) :
    (k'.IPT f).physicalPage = (k.IPT f).physicalPage := by rw [h.entry f]

theorem hasPage (h : TLBOnly k k') (s v : Nat) : k'.HasPage s v ↔ k.HasPage s v := by
  simp [Kernel.HasPage, h.numPages]

theorem modTLB (k : Kernel) (i : Nat) (g : TranslationEntry → TranslationEntry) :
    TLBOnly k (k.modTLB i g) := ⟨rfl, fun _ => rfl, fun _ h => h⟩

/-- Setting a dirty bit of the IPT. -/
theorem setDirty (k : Kernel) (p : Nat) : TLBOnly k (k.modIPT p ({ · with dirty := true })) := by
  refine ⟨rfl, fun f => ?_, fun f hf => ?_⟩
  · rw [modIPT_IPT]
    split
    · rename_i h; subst h; rfl
    · rfl
  · rw [modIPT_IPT]
    split
    · rfl
    · exact hf

end TLBOnly

theorem tlbOnly_propogate (k : Kernel) (i : Nat) : TLBOnly k (propogateCurTLBDirty k i) := by
  unfold propogateCurTLBDirty
  split
  · exact .setDirty _ _
  · exact .refl k

theorem tlbOnly_populate (k : Kernel) (ppn : Nat) : TLBOnly k (populateTLBFromIPTEntry k ppn) := by
  have h := tlbOnly_propogate k k.currentTLB
  refine h.trans ⟨?_, fun _ => rfl, fun _ hf => hf⟩
  unfold populateTLBFromIPTEntry Kernel.modTLB
  rfl

theorem tlbOnly_saveTLBEntry (k : Kernel) (i : Nat) : TLBOnly k (saveTLBEntry k i) :=
  (tlbOnly_propogate k i).trans (.modTLB _ _ _)

theorem tlbOnly_foldl_save (l : List Nat) (k : Kernel) : TLBOnly k (l.foldl saveTLBEntry k) := by
  induction l generalizing k with
  | nil => exact .refl k
  | cons i l ih => exact (tlbOnly_saveTLBEntry k i).trans (ih _)

theorem tlbOnly_saveState (k : Kernel) : TLBOnly k (saveState k) := tlbOnly_foldl_save _ k

theorem tlbOnly_dropFrame (k : Kernel) (ppn : Nat) : TLBOnly k (dropFrameFromTLB k ppn) := by
  unfold dropFrameFromTLB
  split
  · exact .refl k
  · simp only
    split
    · exact (TLBOnly.setDirty k ppn).trans (.modTLB _ _ _)
    · exact .modTLB _ _ _

/-! ## Translation -/

/-- A successful translation went through a valid TLB entry for the page, whose frame is
in range; it sets that entry's use bit, and its dirty bit when writing. -/
theorem translate_ok {k k' : Kernel} {addr pa : Nat} {w : Bool}
    (h : translate k addr w = .ok (k', pa)) :
    ∃ i f, i < TLBSize ∧ (k.tlb i).valid = true ∧ (k.tlb i).virtualPage = addr / PageSize ∧
      (k.tlb i).physicalPage = (f : Nat) ∧ f < NumPhysPages ∧
      pa = f * PageSize + addr % PageSize ∧
      k' = k.modTLB i (fun e => { e with use := true, dirty := e.dirty || w }) := by
  unfold translate at h
  split at h
  · cases h
  · rename_i i hi
    obtain ⟨hfound, n, hn, heq, -⟩ := List.find?_eq_some_iff_getElem.mp hi
    simp only [List.length_range, List.getElem_range] at hn heq
    subst heq
    simp only [Bool.and_eq_true, decide_eq_true_eq] at hfound
    simp only at h
    split at h
    · cases h
    · split at h
      · rename_i hrange
        cases h
        refine ⟨n, (k.tlb n).physicalPage.toNat, hn, hfound.1, hfound.2, by omega, by omega, rfl, rfl⟩
      · cases h

theorem tlbOnly_translate {k k' : Kernel} {addr pa : Nat} {w : Bool}
    (h : translate k addr w = .ok (k', pa)) : TLBOnly k k' := by
  obtain ⟨i, f, -, -, -, -, -, -, rfl⟩ := translate_ok h
  exact .modTLB _ _ _

/-- No valid TLB entry holds a page that missed. -/
theorem tlb_miss {k : Kernel} {vpn : Nat} (h : tlbEntryOfPage k vpn = none) {i : Nat}
    (hi : i < TLBSize) (hv : (k.tlb i).valid = true) : (k.tlb i).virtualPage ≠ vpn := by
  have := List.find?_eq_none.mp h i (List.mem_range.mpr hi)
  simpa [hv] using this

/-- Where the IPT search stops. -/
theorem lookupIPT_some {k : Kernel} {s v f : Nat} (h : lookupIPT k s v = some f) :
    f < NumPhysPages ∧ (k.IPT f).valid = true ∧ (k.IPT f).PID = s ∧
      (k.IPT f).virtualPage = v := by
  obtain ⟨hfound, n, hn, heq, -⟩ := List.find?_eq_some_iff_getElem.mp h
  simp only [List.length_range, List.getElem_range] at hn heq
  subst heq
  simp only [Bool.and_eq_true, decide_eq_true_eq] at hfound
  exact ⟨hn, hfound.1.1, hfound.1.2, hfound.2⟩

/-- A page the IPT search did not find has no valid IPT entry. -/
theorem lookupIPT_none {k : Kernel} {s v : Nat} (h : lookupIPT k s v = none) {f : Nat}
    (hf : f < NumPhysPages) (hv : (k.IPT f).valid = true) (hs : (k.IPT f).PID = s) :
    (k.IPT f).virtualPage ≠ v := by
  have := List.find?_eq_none.mp h f (List.mem_range.mpr hf)
  simpa [hv, hs] using this

/-! ## Eviction -/

/-- Where the page of an evicted frame went: a dirty page to a free swap slot, while a
clean one is marked `EXEC`. -/
inductive WentTo (k : Kernel) (ppn : Nat) (k' : Kernel) : Prop where
  | swap (slot : Nat) (m : BitMap) (hdirty : (k.IPT ppn).dirty = true)
      (hfind : k.swapBitMap.find = (some slot, m)) (hswap : k'.swapBitMap = m)
      (hfile : k'.swapFile = blit k.swapFile (slot * PageSize) PageSize
        (fun j => k.mainMemory (PageSize * ppn + j)))
      (hpage : k'.page (k.IPT ppn).PID (k.IPT ppn).virtualPage =
        { k.page (k.IPT ppn).PID (k.IPT ppn).virtualPage with
          location := .SWAP, byteOffset := (slot * PageSize : Nat), dirty := true })
  | exec (hclean : (k.IPT ppn).dirty = false) (hswap : k'.swapBitMap = k.swapBitMap)
      (hfile : k'.swapFile = k.swapFile)
      (hpage : k'.page (k.IPT ppn).PID (k.IPT ppn).virtualPage =
        { k.page (k.IPT ppn).PID (k.IPT ppn).virtualPage with location := .EXEC })

/-- How `handleMemoryFull` leaves the state, from the one after its TLB loop: the frame's
IPT entry is invalid, the frame is out of the queue, and its page went to swap or `EXEC`. -/
structure Evicted (k : Kernel) (ppn : Nat) (k' : Kernel) : Prop where
  frames : k'.pageTableBitMap = k.pageTableBitMap
  shape : k'.shape = k.shape
  IPT : ∀ f, k'.IPT f = if f = ppn then { k.IPT ppn with valid := false } else k.IPT f
  FIFOList : k'.FIFOList = k.FIFOList.erase ppn
  other : ∀ s v, ¬ (s = (k.IPT ppn).PID ∧ v = (k.IPT ppn).virtualPage) →
    k'.page s v = k.page s v
  wentTo : WentTo k ppn k'
  rest : k' = { k with
    IPT := k'.IPT, FIFOList := k'.FIFOList, spaces := k'.spaces, swapBitMap := k'.swapBitMap,
    swapFile := k'.swapFile }

/-- **`handleMemoryFull`.** Its victim is valid, its TLB entry is dropped, and its page,
which must be a page of a live space, is evicted. -/
theorem handleMemoryFull_spec {k k' : Kernel} {r ppn : Nat}
    (h : handleMemoryFull k r = .ok (k', ppn)) :
    chooseVictim k r = .ok ppn ∧ ppn < NumPhysPages ∧ (k.IPT ppn).valid = true ∧
      (k.HasPage (k.IPT ppn).PID (k.IPT ppn).virtualPage →
        Evicted (dropFrameFromTLB k ppn) ppn k') := by
  unfold handleMemoryFull at h
  cases hv : chooseVictim k r with
  | error stop => simp [hv] at h
  | ok p =>
    simp only [hv] at h
    split at h
    · rename_i hvalid
      cases hrec : recordEviction (dropFrameFromTLB k p) p with
      | error stop => simp [hrec] at h
      | ok k₁ =>
        simp only [hrec] at h
        cases h
        refine ⟨rfl, hvalid.1, hvalid.2, fun hhas => ?_⟩
        have ht := tlbOnly_dropFrame k ppn
        have hvalid' : ((dropFrameFromTLB k ppn).IPT ppn).valid = true := by
          rw [ht.valid]; exact hvalid.2
        rw [← ht.hasPage, ← ht.PID, ← ht.virtualPage] at hhas
        generalize dropFrameFromTLB k ppn = k at *
        unfold recordEviction at hrec
        cases hd : (k.IPT ppn).dirty with
        | false =>
          simp only [hd, Bool.false_and, Bool.false_eq_true, if_false] at hrec
          cases hrec
          refine ⟨rfl, modPage_shape _ _ _ _, fun f => ?_, rfl, fun s v hne => ?_,
            .exec hd rfl rfl ?_, rfl⟩
          · exact Function.update_apply _ _ _ _
          · exact (modPage_page k _ _ s v _ hhas).trans (if_neg hne)
          · exact (modPage_page k _ _ _ _ _ hhas).trans (if_pos ⟨rfl, rfl⟩)
        | true =>
          simp only [hd, hvalid', Bool.and_self, if_true, writePageToSwap] at hrec
          cases hfind : k.swapBitMap.find with
          | mk o m =>
            cases o with
            | none => simp [hfind] at hrec
            | some slot =>
              simp only [hfind] at hrec
              cases hrec
              refine ⟨rfl, modPage_shape _ _ _ _, fun f => ?_, rfl, fun s v hne => ?_,
                .swap slot m hd hfind rfl rfl ?_, rfl⟩
              · exact Function.update_apply _ _ _ _
              · exact (modPage_page _ _ _ s v _ hhas).trans (if_neg hne)
              · exact (modPage_page _ _ _ _ _ _ hhas).trans (if_pos ⟨rfl, rfl⟩)
    · cases h

/-- The two ways `handleIPTmiss` gets its frame. -/
theorem findFrame_spec {k k' : Kernel} {r ppn : Nat} (h : findFrame k r = .ok (k', ppn)) :
    (∃ m, k.pageTableBitMap.find = (some ppn, m) ∧ k' = { k with pageTableBitMap := m }) ∨
    ((∀ f < k.pageTableBitMap.numBits, k.pageTableBitMap.test f = true) ∧
      handleMemoryFull k r = .ok (k', ppn)) := by
  unfold findFrame at h
  cases hfind : k.pageTableBitMap.find with
  | mk o m =>
    cases o with
    | some p =>
      simp only [hfind] at h
      cases h
      exact .inl ⟨m, rfl, rfl⟩
    | none =>
      simp only [hfind] at h
      exact .inr ⟨(BitMap.find_none hfind).1, h⟩

/-- **`handleIPTmiss`**: a frame, the page's contents in it, and the tables brought up to
date. -/
theorem handleIPTmiss_spec {k k' : Kernel} {s v r ppn : Nat}
    (h : handleIPTmiss k s v r = .ok (k', ppn)) :
    ∃ k₁ sp k₂, findFrame k r = .ok (k₁, ppn) ∧ k₁.spaces s = some sp ∧ v < sp.numPages ∧
      loadPage k₁ sp v ppn = .ok k₂ ∧ k' = recordLoad k₂ s v ppn := by
  unfold handleIPTmiss at h
  cases hf : findFrame k r with
  | error stop => simp [hf] at h
  | ok res =>
    obtain ⟨k₁, p⟩ := res
    simp only [hf] at h
    cases hs : k₁.spaces s with
    | none => simp [hs] at h
    | some sp =>
      simp only [hs] at h
      split at h
      · rename_i hv
        cases hl : loadPage k₁ sp v p with
        | error stop => simp [hl] at h
        | ok k₂ =>
          simp only [hl] at h
          cases h
          exact ⟨k₁, sp, k₂, rfl, hs, hv, hl, rfl⟩
      · cases h

/-- **`handleTLBMiss`**: the page was in the IPT, or `handleIPTmiss` brought it in; then it
is entered in the TLB. -/
theorem handleTLBMiss_spec {k k' : Kernel} {s VA r : Nat} (h : handleTLBMiss k s VA r = .ok k') :
    ∃ k₁ ppn, k' = populateTLBFromIPTEntry k₁ ppn ∧
      ((k₁ = k ∧ lookupIPT k s (VA / PageSize) = some ppn) ∨
       (lookupIPT k s (VA / PageSize) = none ∧
         handleIPTmiss k s (VA / PageSize) r = .ok (k₁, ppn))) := by
  unfold handleTLBMiss residentFrame at h
  cases hl : lookupIPT k s (VA / PageSize) with
  | some ppn =>
    simp only [hl] at h
    cases h
    exact ⟨k, ppn, rfl, .inl ⟨rfl, rfl⟩⟩
  | none =>
    simp only [hl] at h
    cases hm : handleIPTmiss k s (VA / PageSize) r with
    | error stop => simp [hm] at h
    | ok res =>
      obtain ⟨k₁, ppn⟩ := res
      simp only [hm] at h
      cases h
      exact ⟨k₁, ppn, rfl, .inr ⟨rfl, rfl⟩⟩

/-! ## Loading -/

/-- `loadPage` writes into the frame and possibly gives back the page's swap slot. -/
theorem loadPage_same {k k' : Kernel} {sp : AddrSpace} {v ppn : Nat}
    (h : loadPage k sp v ppn = .ok k') :
    k' = { k with mainMemory := k'.mainMemory, swapBitMap := k'.swapBitMap } := by
  unfold loadPage at h
  split at h
  · unfold readPageFromExecutable at h
    split at h
    · cases h
    · cases h; rfl
  · cases h; rfl
  · cases h; rfl
  · cases h; rfl

/-- Where the contents of a page came from. Bytes outside the frame stay. -/
theorem loadPage_cases {k k' : Kernel} {sp : AddrSpace} {s v ppn : Nat}
    (hs : k.spaces s = some sp) (h : loadPage k sp v ppn = .ok k') :
    ((k.page s v).location = .SWAP ∧
      k' = readPageFromSwapToPPN k (k.page s v).byteOffset ppn) ∨
    ((k.page s v).location ≠ .SWAP ∧ k'.swapBitMap = k.swapBitMap ∧
      ∀ a, ¬ (PageSize * ppn ≤ a ∧ a < PageSize * ppn + PageSize) →
        k'.mainMemory a = k.mainMemory a) := by
  have hpage : k.page s v = sp.pageTable v := by simp [Kernel.page, hs]
  unfold loadPage at h
  rw [hpage]
  cases hloc : (sp.pageTable v).location with
  | SWAP =>
    simp only [hloc] at h
    cases h
    exact .inl ⟨rfl, rfl⟩
  | EXEC =>
    simp only [hloc, readPageFromExecutable] at h
    split at h
    · cases h
    · cases h
      exact .inr ⟨by simp, rfl, fun a ha => if_neg ha⟩
  | VOID =>
    simp only [hloc] at h
    cases h
    exact .inr ⟨by simp, rfl, fun _ _ => rfl⟩
  | MAIN =>
    simp only [hloc] at h
    cases h
    exact .inr ⟨by simp, rfl, fun _ _ => rfl⟩

/-- The byte that `loadPage` puts into the frame: from the executable, as far as it reaches,
from swap, or what is there. -/
def Kernel.incoming (k : Kernel) (sp : AddrSpace) (vpn ppn j : Nat) : UInt8 :=
  match (sp.pageTable vpn).location with
  | .EXEC => (sp.executable[(sp.pageTable vpn).byteOffset.toNat + j]?).getD
      (k.mainMemory (PageSize * ppn + j))
  | .SWAP => k.swapFile ((sp.pageTable vpn).byteOffset.toNat + j)
  | .VOID => k.mainMemory (PageSize * ppn + j)
  | .MAIN => k.mainMemory (PageSize * ppn + j)

theorem loadPage_byte {k k' : Kernel} {sp : AddrSpace} {v ppn j : Nat} (hj : j < PageSize)
    (h : loadPage k sp v ppn = .ok k') :
    k'.mainMemory (PageSize * ppn + j) = k.incoming sp v ppn j := by
  have hin : PageSize * ppn ≤ PageSize * ppn + j ∧ PageSize * ppn + j < PageSize * ppn + PageSize :=
    ⟨Nat.le_add_right _ _, Nat.add_lt_add_left hj _⟩
  unfold loadPage at h
  unfold Kernel.incoming
  cases hloc : (sp.pageTable v).location with
  | EXEC =>
    simp only [hloc, readPageFromExecutable] at h
    split at h
    · cases h
    · cases h
      simp only [blit, if_pos hin, Nat.add_sub_cancel_left]
  | SWAP =>
    simp only [hloc] at h
    cases h
    simp only [readPageFromSwapToPPN, blit, if_pos hin, Nat.add_sub_cancel_left]
  | VOID =>
    simp only [hloc] at h
    cases h
    rfl
  | MAIN =>
    simp only [hloc] at h
    cases h
    rfl

/-- Loading a page writes to its frame only. -/
theorem loadPage_outside {k k' : Kernel} {sp : AddrSpace} {s v ppn a : Nat}
    (hs : k.spaces s = some sp) (h : loadPage k sp v ppn = .ok k')
    (ha : ¬ (PageSize * ppn ≤ a ∧ a < PageSize * ppn + PageSize)) :
    k'.mainMemory a = k.mainMemory a := by
  rcases loadPage_cases hs h with ⟨-, rfl⟩ | ⟨-, -, hmem⟩
  · exact if_neg ha
  · exact hmem a ha

/-- What `recordLoad` writes: the page's entry, the frame's IPT entry and the back of the
queue. -/
structure Recorded (k : Kernel) (s v ppn : Nat) (k' : Kernel) : Prop where
  frames : k'.pageTableBitMap = k.pageTableBitMap
  shape : k'.shape = k.shape
  IPT : ∀ f, k'.IPT f = if f = ppn then
    { toTranslationEntry := { (k.page s v).toTranslationEntry with
        physicalPage := ppn, valid := true }, PID := s } else k.IPT f
  FIFOList : k'.FIFOList = k.FIFOList ++ [ppn]
  page : ∀ t w, k'.page t w = if t = s ∧ w = v then
    { k.page s v with physicalPage := ppn, valid := true, location := .MAIN } else k.page t w
  loads : k'.loads = k.loads + 1
  loadedAt : k'.loadedAt = Function.update k.loadedAt ppn k.loads
  rest : k' = { k with
    IPT := k'.IPT, FIFOList := k'.FIFOList, spaces := k'.spaces, loads := k'.loads,
    loadedAt := k'.loadedAt }

theorem recordLoad_spec {k : Kernel} {s v : Nat} (ppn : Nat) (hp : k.HasPage s v) :
    Recorded k s v ppn (recordLoad k s v ppn) := by
  refine ⟨rfl, modPage_shape _ _ _ _, fun f => ?_, rfl, fun t w => modPage_page k s v t w _ hp,
    rfl, rfl, rfl⟩
  refine (Function.update_apply _ _ _ _).trans ?_
  rw [modPage_page k s v s v _ hp]
  simp only [and_self, if_true]
  rfl

/-! ## Giving a page back -/

/-- One turn of the loops of `AddrSpace::Exit` and `~AddrSpace` on the page `v`: the page
is invalid afterwards, and what it held, a frame or a swap slot, is free. -/
structure PageFreed (k : Kernel) (s v : Nat) (k' : Kernel) : Prop where
  shape : k'.shape = k.shape
  other : ∀ t w, ¬ (t = s ∧ w = v) → k'.page t w = k.page t w
  invalid : (k'.page s v).valid = false
  virtualPage : (k'.page s v).virtualPage = (k.page s v).virtualPage
  main : (k.page s v).valid = true → (k.page s v).location = .MAIN →
    k'.pageTableBitMap = k.pageTableBitMap.clear (k.page s v).physicalPage.toNat ∧
    (∀ f, k'.IPT f = if f = (k.page s v).physicalPage.toNat then
      { k.IPT f with valid := false } else k.IPT f) ∧ k'.swapBitMap = k.swapBitMap
  notMain : ¬ ((k.page s v).valid = true ∧ (k.page s v).location = .MAIN) →
    k'.pageTableBitMap = k.pageTableBitMap ∧ k'.IPT = k.IPT ∧ k'.FIFOList = k.FIFOList
  swap : (k.page s v).valid = true → (k.page s v).location = .SWAP →
    k'.swapBitMap = k.swapBitMap.clear ((k.page s v).byteOffset / PageSize).toNat
  notSwap : ¬ ((k.page s v).valid = true ∧ (k.page s v).location = .SWAP) →
    k'.swapBitMap = k.swapBitMap
  queue : ∀ f ∈ k'.FIFOList, f ∈ k.FIFOList
  queueLength : k.FIFOList.length ≤ k'.FIFOList.length + 1
  rest : k' = { k with
    pageTableBitMap := k'.pageTableBitMap, swapBitMap := k'.swapBitMap, IPT := k'.IPT,
    FIFOList := k'.FIFOList, spaces := k'.spaces }

theorem length_le_erase (l : List Nat) (p : Nat) : l.length ≤ (l.erase p).length + 1 := by
  rw [List.length_erase]
  split <;> omega

/-- The frees of both loops, whatever they do to the queue. -/
theorem pageFreed_of {k : Kernel} {s v : Nat} (hp : k.HasPage s v)
    (g : PageTableEntry → PageTableEntry) (hg : ∀ e, (g e).valid = false)
    (hvp : ∀ e, (g e).virtualPage = e.virtualPage) (L : List Nat) (hL : ∀ f ∈ L, f ∈ k.FIFOList)
    (hlen : k.FIFOList.length ≤ L.length + 1) :
    PageFreed k s v ((if (k.page s v).valid then
      match (k.page s v).location with
      | .MAIN => freeFrame { k with FIFOList := L } (k.page s v).physicalPage.toNat
      | .SWAP => clearSwapSlot k (k.page s v).byteOffset
      | .VOID => k
      | .EXEC => k
    else k).modPage s v g) := by
  have hother : ∀ k₁ : Kernel, k₁.spaces = k.spaces → ∀ t w, ¬ (t = s ∧ w = v) →
      (k₁.modPage s v g).page t w = k.page t w := by
    intro k₁ hk₁ t w hne
    have hp₁ : k₁.HasPage s v := by simpa [Kernel.HasPage, Kernel.numPages, hk₁] using hp
    rw [modPage_page k₁ s v t w g hp₁, if_neg hne]
    simp [Kernel.page, hk₁]
  have hself : ∀ k₁ : Kernel, k₁.spaces = k.spaces →
      ((k₁.modPage s v g).page s v).valid = false ∧
      ((k₁.modPage s v g).page s v).virtualPage = (k.page s v).virtualPage := by
    intro k₁ hk₁
    have hp₁ : k₁.HasPage s v := by simpa [Kernel.HasPage, Kernel.numPages, hk₁] using hp
    rw [modPage_page k₁ s v s v g hp₁, if_pos ⟨rfl, rfl⟩]
    exact ⟨hg _, (hvp _).trans (by simp [Kernel.page, hk₁])⟩
  cases hval : (k.page s v).valid with
  | false =>
    simp only [Bool.false_eq_true, if_false]
    refine ⟨modPage_shape _ _ _ _, fun t w hne => ?_, ?_, ?_, by simp [hval], fun _ => ⟨rfl, rfl, rfl⟩,
      by simp [hval], fun _ => rfl, fun f hf => hf, Nat.le_succ _, rfl⟩
    · exact hother k rfl t w hne
    · exact (hself k rfl).1
    · exact (hself k rfl).2
  | true =>
    cases hloc : (k.page s v).location with
    | MAIN =>
      simp only [if_true]
      refine ⟨modPage_shape _ _ _ _, fun t w hne => ?_, ?_, ?_, fun _ _ => ⟨rfl, fun f => ?_, rfl⟩,
        by simp [hval, hloc], by simp [hloc], fun _ => rfl, hL, hlen, rfl⟩
      · exact hother _ rfl t w hne
      · exact (hself _ rfl).1
      · exact (hself _ rfl).2
      · refine (Function.update_apply _ _ _ _).trans ?_
        split
        · rename_i heq; rw [heq]
        · rfl
    | SWAP =>
      simp only [if_true]
      refine ⟨modPage_shape _ _ _ _, fun t w hne => ?_, ?_, ?_, by simp [hloc],
        fun _ => ⟨rfl, rfl, rfl⟩, fun _ _ => rfl, by simp [hval, hloc], fun f hf => hf,
        Nat.le_succ _, rfl⟩
      · exact hother _ rfl t w hne
      · exact (hself _ rfl).1
      · exact (hself _ rfl).2
    | VOID | EXEC =>
      simp only [if_true]
      refine ⟨modPage_shape _ _ _ _, fun t w hne => ?_, ?_, ?_, by simp [hloc],
        fun _ => ⟨rfl, rfl, rfl⟩, by simp [hloc], fun _ => rfl, fun f hf => hf,
        Nat.le_succ _, rfl⟩
      · exact hother _ rfl t w hne
      · exact (hself _ rfl).1
      · exact (hself _ rfl).2

theorem exitPage_spec {k : Kernel} {s v : Nat} (hp : k.HasPage s v) :
    PageFreed k s v (exitPage s k v) :=
  pageFreed_of hp ({ · with valid := false, physicalPage := -1 }) (fun _ => rfl) (fun _ => rfl)
    (k.FIFOList.erase (k.page s v).physicalPage.toNat) (fun _ hf => List.mem_of_mem_erase hf)
    (length_le_erase _ _)

theorem eraseScanned_sub (l : List Nat) (pp : Nat → Int) : ∀ f ∈ eraseScanned l pp, f ∈ l := by
  unfold eraseScanned
  split
  · exact fun f hf => List.mem_of_mem_eraseIdx hf
  · exact fun f hf => hf

theorem length_le_eraseScanned (l : List Nat) (pp : Nat → Int) :
    l.length ≤ (eraseScanned l pp).length + 1 := by
  unfold eraseScanned
  split
  · rw [List.length_eraseIdx]
    split <;> omega
  · omega

theorem deletePage_spec {k : Kernel} {s v : Nat} (junk : Nat → Int) (hp : k.HasPage s v)
    (hv : (k.page s v).valid = true) : PageFreed k s v (deletePage s junk k v) := by
  have h := pageFreed_of hp ({ · with valid := false }) (fun _ => rfl) (fun _ => rfl)
    (eraseScanned k.FIFOList (k.physicalPageAt s junk)) (eraseScanned_sub _ _)
    (length_le_eraseScanned _ _)
  rw [if_pos hv] at h
  unfold deletePage
  rw [if_pos hv]
  exact h

/-! ## What the fault path and the frees leave alone -/

/-- The spaces, threads and page numbers are those of `k`; page entries, frames and slots
may have moved. -/
structure SameLayout (k k' : Kernel) : Prop where
  shape : k'.shape = k.shape
  virtualPage : ∀ s v, (k'.page s v).virtualPage = (k.page s v).virtualPage
  spaceCount : k'.spaceCount = k.spaceCount
  threads : k'.threads = k.threads
  threadIDCount : k'.threadIDCount = k.threadIDCount
  currentThread : k'.currentThread = k.currentThread

namespace SameLayout

variable {k k' k'' : Kernel}

theorem refl (k : Kernel) : SameLayout k k := ⟨rfl, fun _ _ => rfl, rfl, rfl, rfl, rfl⟩

theorem trans (h : SameLayout k k') (h' : SameLayout k' k'') : SameLayout k k'' where
  shape := h'.shape.trans h.shape
  virtualPage s v := (h'.virtualPage s v).trans (h.virtualPage s v)
  spaceCount := h'.spaceCount.trans h.spaceCount
  threads := h'.threads.trans h.threads
  threadIDCount := h'.threadIDCount.trans h.threadIDCount
  currentThread := h'.currentThread.trans h.currentThread

theorem numPages (h : SameLayout k k') : k'.numPages = k.numPages := numPages_of_shape h.shape

theorem hasPage (h : SameLayout k k') (s v : Nat) : k'.HasPage s v ↔ k.HasPage s v := by
  simp [Kernel.HasPage, h.numPages]

end SameLayout

theorem TLBOnly.sameLayout {k k' : Kernel} (h : TLBOnly k k') : SameLayout k k' :=
  ⟨h.shape, fun s v => by rw [h.page], h.spaceCount, h.threads, h.threadIDCount, h.currentThread⟩

theorem Evicted.sameLayout {k k' : Kernel} {ppn : Nat} (h : Evicted k ppn k') :
    SameLayout k k' := by
  refine ⟨h.shape, fun s v => ?_, by rw [h.rest], by rw [h.rest], by rw [h.rest], by rw [h.rest]⟩
  by_cases heq : s = (k.IPT ppn).PID ∧ v = (k.IPT ppn).virtualPage
  · obtain ⟨rfl, rfl⟩ := heq
    cases h.wentTo with
    | swap slot m _ _ _ _ hpage => rw [hpage]
    | exec _ _ _ hpage => rw [hpage]
  · rw [h.other s v heq]

theorem Recorded.sameLayout {k k' : Kernel} {s v ppn : Nat} (h : Recorded k s v ppn k') :
    SameLayout k k' := by
  refine ⟨h.shape, fun t w => ?_, by rw [h.rest], by rw [h.rest], by rw [h.rest], by rw [h.rest]⟩
  rw [h.page]
  split
  · rename_i heq; rw [heq.1, heq.2]
  · rfl

theorem PageFreed.sameLayout {k k' : Kernel} {s v : Nat} (h : PageFreed k s v k') :
    SameLayout k k' := by
  refine ⟨h.shape, fun t w => ?_, by rw [h.rest], by rw [h.rest], by rw [h.rest], by rw [h.rest]⟩
  by_cases heq : t = s ∧ w = v
  · rw [heq.1, heq.2, h.virtualPage]
  · rw [h.other t w heq]

theorem loadPage_sameLayout {k k' : Kernel} {sp : AddrSpace} {v ppn : Nat}
    (h : loadPage k sp v ppn = .ok k') : SameLayout k k' := by
  rw [loadPage_same h]
  exact ⟨rfl, fun _ _ => rfl, rfl, rfl, rfl, rfl⟩

/-- A live space after a write to it: its old pages are as they were, and its new ones hold
nothing. -/
structure Extended (k : Kernel) (s : Nat) (sp : AddrSpace) : Prop where
  old : ∀ v, k.HasPage s v → v < sp.numPages ∧ sp.pageTable v = k.page s v
  new : ∀ v < sp.numPages, ¬ k.HasPage s v →
    (sp.pageTable v).valid = false ∧ (sp.pageTable v).location ≠ .SWAP ∧
      (sp.pageTable v).virtualPage = v

theorem setSpace_page (k : Kernel) (s : Nat) (sp : AddrSpace) (t v : Nat) :
    (k.setSpace s sp).page t v = if t = s then sp.pageTable v else k.page t v := by
  by_cases h : t = s
  · subst h; simp [Kernel.page, Kernel.setSpace]
  · simp [Kernel.page, Kernel.setSpace, h]

theorem setSpace_numPages (k : Kernel) (s : Nat) (sp : AddrSpace) (t : Nat) :
    (k.setSpace s sp).numPages t = if t = s then sp.numPages else k.numPages t := by
  by_cases h : t = s
  · subst h; simp [Kernel.numPages, Kernel.setSpace]
  · simp [Kernel.numPages, Kernel.setSpace, h]

namespace Extended

variable {k : Kernel} {s : Nat} {sp : AddrSpace}

theorem hasPage (h : Extended k s sp) {t v : Nat} (hp : k.HasPage t v) :
    (k.setSpace s sp).HasPage t v ∧ (k.setSpace s sp).page t v = k.page t v := by
  rw [Kernel.HasPage, setSpace_numPages, setSpace_page]
  by_cases ht : t = s
  · subst ht
    simp only [if_true]
    exact h.old v hp
  · rw [if_neg ht, if_neg ht]
    exact ⟨hp, rfl⟩

/-- A page of the new state was there before, or is empty. -/
theorem cases (h : Extended k s sp) {t v : Nat} (hp : (k.setSpace s sp).HasPage t v) :
    (k.HasPage t v ∧ (k.setSpace s sp).page t v = k.page t v) ∨
    (¬ k.HasPage t v ∧ ((k.setSpace s sp).page t v).valid = false ∧
      ((k.setSpace s sp).page t v).location ≠ .SWAP ∧
      ((k.setSpace s sp).page t v).virtualPage = v) := by
  by_cases hold : k.HasPage t v
  · exact .inl ⟨hold, (h.hasPage hold).2⟩
  · refine .inr ⟨hold, ?_⟩
    rw [Kernel.HasPage, setSpace_numPages] at hp
    by_cases ht : t = s
    · subst ht
      rw [if_pos rfl] at hp
      rw [setSpace_page, if_pos rfl]
      exact h.new v hp hold
    · rw [if_neg ht] at hp
      exact absurd hp hold

end Extended

/-- A new space takes a number that no space has. -/
theorem extended_new {k : Kernel} {s : Nat} (hs : k.spaces s = none) (exe : Executable)
    (tid : Nat) : Extended k s (AddrSpace.new exe tid) := by
  refine ⟨fun v hp => ?_, fun v _ _ => ⟨rfl, ?_, rfl⟩⟩
  · simp [Kernel.HasPage, Kernel.numPages, hs] at hp
  · simp only [AddrSpace.new]
    split <;> simp

theorem extended_fork {k : Kernel} {s : Nat} {sp : AddrSpace} (hs : k.spaces s = some sp)
    (tid : Nat) (junk : Nat → Int) : Extended k s (sp.fork tid junk) := by
  refine ⟨fun v hp => ?_, fun v _ hnew => ?_⟩
  · simp only [Kernel.HasPage, Kernel.numPages, hs] at hp
    simp only [AddrSpace.fork, if_pos hp, Kernel.page, hs, and_true]
    omega
  · simp only [Kernel.HasPage, Kernel.numPages, hs] at hnew
    simp [AddrSpace.fork, if_neg hnew]

/-! ## The loops of `Exit` and of the destructor -/

/-- **The rule for `AddrSpace::Exit`.** What each turn of its loop keeps, the loop keeps. -/
theorem exitLoop_rule {I : Kernel → Prop} {k : Kernel} {s : Nat} (pages : List Nat)
    (hpages : ∀ v ∈ pages, k.HasPage s v)
    (hI : ∀ k₁ v, v ∈ pages → SameLayout k k₁ → k₁.HasPage s v → I k₁ → I (exitPage s k₁ v))
    (hk : I k) :
    SameLayout k (pages.foldl (exitPage s) k) ∧ I (pages.foldl (exitPage s) k) := by
  refine List.foldlRecOn (motive := fun k₁ => SameLayout k k₁ ∧ I k₁) pages (exitPage s)
    ⟨.refl k, hk⟩ ?_
  rintro k₁ ⟨hlay, hk₁⟩ v hv
  have hp : k₁.HasPage s v := (hlay.hasPage s v).mpr (hpages v hv)
  exact ⟨hlay.trans (exitPage_spec hp).sameLayout, hI k₁ v hv hlay hp hk₁⟩

theorem deletePage_invalid {k : Kernel} {s v : Nat} (junk : Nat → Int)
    (hv : (k.page s v).valid = false) : deletePage s junk k v = k := by
  simp [deletePage, hv]

/-- The state of the destructor's loop before its turn for the page `n`. -/
def deleteLoop (k : Kernel) (s : Nat) (junk : Nat → Int) (n : Nat) : Kernel :=
  (List.range n).foldl (deletePage s junk) k

theorem deleteLoop_succ (k : Kernel) (s : Nat) (junk : Nat → Int) (n : Nat) :
    deleteLoop k s junk (n + 1) = deletePage s junk (deleteLoop k s junk n) n := by
  simp [deleteLoop, List.range_succ]

/-- Giving a stack back leaves the layout. -/
theorem clearStack_sameLayout {k : Kernel} {s : Nat} {pages : List Nat}
    (hpages : ∀ v ∈ pages, k.HasPage s v) : SameLayout k (clearStack k s pages) := by
  have hloop := exitLoop_rule (I := fun _ => True) (pages.take 8)
    (fun v hv => hpages v (List.mem_of_mem_take hv)) (fun _ _ _ _ _ _ => trivial) trivial
  exact hloop.1.trans (tlbOnly_saveState _).sameLayout

/-- **The rule for `AddrSpace::~AddrSpace`.** What each turn of its loop keeps, the loop
keeps; after `n` turns the first `n` pages are invalid and the others untouched. -/
theorem deleteLoop_rule {I : Kernel → Prop} {k : Kernel} (s : Nat) (junk : Nat → Int)
    (hI : ∀ n < k.numPages s, SameLayout k (deleteLoop k s junk n) →
      ((deleteLoop k s junk n).page s n).valid = true → I (deleteLoop k s junk n) →
      I (deletePage s junk (deleteLoop k s junk n) n))
    (hk : I k) {n : Nat} (hn : n ≤ k.numPages s) :
    SameLayout k (deleteLoop k s junk n) ∧
      (∀ t v, ¬ (t = s ∧ v < n) → (deleteLoop k s junk n).page t v = k.page t v) ∧
      (∀ v < n, ((deleteLoop k s junk n).page s v).valid = false) ∧
      I (deleteLoop k s junk n) := by
  induction n with
  | zero => exact ⟨.refl k, fun _ _ _ => rfl, fun _ hv => absurd hv (by simp), hk⟩
  | succ n ih =>
    obtain ⟨hlay, hsame, hinv, hIn⟩ := ih (by omega)
    have hp : (deleteLoop k s junk n).HasPage s n := (hlay.hasPage s n).mpr hn
    rw [deleteLoop_succ]
    cases hv : ((deleteLoop k s junk n).page s n).valid with
    | false =>
      rw [deletePage_invalid junk hv]
      refine ⟨hlay, fun t v hne => hsame t v (by omega), fun v hlt => ?_, hIn⟩
      rcases Nat.lt_succ_iff_lt_or_eq.mp hlt with hlt | rfl
      · exact hinv v hlt
      · exact hv
    | true =>
      have hfree := deletePage_spec junk hp hv
      refine ⟨hlay.trans hfree.sameLayout, fun t v hne => ?_, fun v hlt => ?_, hI n hn hlay hv hIn⟩
      · rw [hfree.other t v (by omega), hsame t v (by omega)]
      · rcases Nat.lt_succ_iff_lt_or_eq.mp hlt with hlt | rfl
        · rw [hfree.other s v (by omega)]
          exact hinv v hlt
        · exact hfree.invalid

end Nachos.VM

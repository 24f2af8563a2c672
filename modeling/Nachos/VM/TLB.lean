import Nachos.VM.Frames

/-!
# The TLB

The TLB caches IPT entries of the running space (`TLBInv`), and a page can be dirty in the
TLB before its IPT entry knows. A frame counts as dirty when either says so (`DirtyFrame`);
no step of the TLB code loses that: an entry passes its dirty bit on before it is replaced
or dropped.
-/

namespace Nachos.VM

/-- The frame was written to: its IPT entry or its TLB entry is dirty. -/
def DirtyFrame (k : Kernel) (f : Nat) : Prop :=
  (k.IPT f).dirty = true ∨ ∃ i < TLBSize, (k.tlb i).valid = true ∧
    (k.tlb i).physicalPage = (f : Int) ∧ (k.tlb i).dirty = true

/-- Every valid TLB entry is about a resident page of the running space, and no two are
about the same frame. -/
structure TLBInv (k : Kernel) : Prop where
  entry : ∀ i < TLBSize, (k.tlb i).valid = true → ∃ f < NumPhysPages,
    (k.tlb i).physicalPage = (f : Int) ∧ (k.IPT f).valid = true ∧
    k.currentSpace = some (k.IPT f).PID ∧ (k.tlb i).virtualPage = (k.IPT f).virtualPage
  inj : ∀ i < TLBSize, ∀ j < TLBSize, (k.tlb i).valid = true → (k.tlb j).valid = true →
    (k.tlb i).physicalPage = (k.tlb j).physicalPage → i = j

/-- Only the TLB and IPT dirty bits moved; no TLB entry came in and no dirty frame became
clean. -/
structure TLBShrinks (k k' : Kernel) : Prop extends TLBOnly k k' where
  sub : ∀ i < TLBSize, (k'.tlb i).valid = true → (k.tlb i).valid = true ∧
    (k'.tlb i).virtualPage = (k.tlb i).virtualPage ∧
    (k'.tlb i).physicalPage = (k.tlb i).physicalPage
  stillDirty : ∀ f, DirtyFrame k f → DirtyFrame k' f

namespace TLBShrinks

variable {k k' k'' : Kernel}

theorem refl (k : Kernel) : TLBShrinks k k :=
  ⟨.refl k, fun _ _ hv => ⟨hv, rfl, rfl⟩, fun _ h => h⟩

theorem trans (h : TLBShrinks k k') (h' : TLBShrinks k' k'') : TLBShrinks k k'' := by
  refine ⟨h.toTLBOnly.trans h'.toTLBOnly, fun i hi hv => ?_,
    fun f hf => h'.stillDirty f (h.stillDirty f hf)⟩
  obtain ⟨hv', hvp', hpp'⟩ := h'.sub i hi hv
  obtain ⟨hv₀, hvp, hpp⟩ := h.sub i hi hv'
  exact ⟨hv₀, hvp'.trans hvp, hpp'.trans hpp⟩

theorem currentSpace (h : TLBShrinks k k') : k'.currentSpace = k.currentSpace := by
  simp only [Kernel.currentSpace, h.currentThread, h.threads]

end TLBShrinks

theorem TLBInv.shrinks {k k' : Kernel} (h : TLBInv k) (hs : TLBShrinks k k') : TLBInv k' := by
  refine ⟨fun i hi hv => ?_, fun i hi j hj hv hv' heq => ?_⟩
  · obtain ⟨hv₀, hvp, hpp⟩ := hs.sub i hi hv
    obtain ⟨f, hf, hpf, hfv, hcur, hvf⟩ := h.entry i hi hv₀
    refine ⟨f, hf, hpp.trans hpf, ?_⟩
    rw [hs.valid, hs.PID, hs.virtualPage, hs.currentSpace, hvp]
    exact ⟨hfv, hcur, hvf⟩
  · obtain ⟨hv₀, -, hpp⟩ := hs.sub i hi hv
    obtain ⟨hv₀', -, hpp'⟩ := hs.sub j hj hv'
    exact h.inj i hi j hj hv₀ hv₀' (hpp.symm.trans (heq.trans hpp'))

theorem DirtyFrame.congr {k k' : Kernel} {f : Nat} (h : DirtyFrame k f) (htlb : k'.tlb = k.tlb)
    (hIPT : (k'.IPT f).dirty = (k.IPT f).dirty) : DirtyFrame k' f := by
  unfold DirtyFrame
  rw [htlb, hIPT]
  exact h

theorem TLBInv.congr {k k' : Kernel} (h : TLBInv k) (htlb : k'.tlb = k.tlb)
    (hcur : ∀ s, k.currentSpace = some s → k'.currentSpace = some s)
    (hIPT : ∀ i < TLBSize, (k.tlb i).valid = true → ∀ f : Nat, (k.tlb i).physicalPage = (f : Int) →
      k'.IPT f = k.IPT f) : TLBInv k' := by
  refine ⟨fun i hi hv => ?_, fun i hi j hj hv hv' heq => ?_⟩
  · rw [htlb] at hv ⊢
    obtain ⟨f, hf, hpf, hfv, hs, hvf⟩ := h.entry i hi hv
    refine ⟨f, hf, hpf, ?_⟩
    rw [hIPT i hi hv f hpf]
    exact ⟨hfv, hcur _ hs, hvf⟩
  · rw [htlb] at hv hv' heq
    exact h.inj i hi j hj hv hv' heq

/-- A TLB without valid entries is coherent with anything. -/
theorem tlbInv_of_empty {k : Kernel} (h : ∀ i < TLBSize, (k.tlb i).valid = false) : TLBInv k := by
  refine ⟨fun i hi hv => ?_, fun i hi j _ hv => ?_⟩ <;>
  · rw [h i hi] at hv
    cases hv

/-! ## Passing on the dirty bit -/

@[simp] theorem propogate_tlb (k : Kernel) (i : Nat) : (propogateCurTLBDirty k i).tlb = k.tlb := by
  unfold propogateCurTLBDirty
  split <;> rfl

theorem propogate_dirty {k : Kernel} {i f : Nat} (hv : (k.tlb i).valid = true)
    (hd : (k.tlb i).dirty = true) (hp : (k.tlb i).physicalPage = (f : Int)) :
    ((propogateCurTLBDirty k i).IPT f).dirty = true := by
  simp [propogateCurTLBDirty, hv, hd, hp, modIPT_IPT]

/-- Once its dirty bit is passed on, an entry can be overwritten. -/
theorem dirtyFrame_propogate {k : Kernel} (k' : Kernel) (i : Nat)
    (hIPT : k'.IPT = (propogateCurTLBDirty k i).IPT) (htlb : ∀ j, j ≠ i → k'.tlb j = k.tlb j) {f : Nat} (h : DirtyFrame k f) : DirtyFrame k' f := by
  rcases h with hd | ⟨j, hj, hv, hp, hd⟩
  · left
    rw [hIPT]
    exact (tlbOnly_propogate k i).dirty f hd
  · by_cases heq : j = i
    · subst heq
      left
      rw [hIPT]
      exact propogate_dirty hv hd hp
    · right
      refine ⟨j, hj, ?_⟩
      rw [htlb j heq]
      exact ⟨hv, hp, hd⟩

theorem shrinks_saveTLBEntry (k : Kernel) (i : Nat) : TLBShrinks k (saveTLBEntry k i) := by
  have htlb : ∀ j, (saveTLBEntry k i).tlb j =
      if j = i then { k.tlb i with valid := false } else k.tlb j := by
    intro j
    unfold saveTLBEntry
    rw [modTLB_tlb, propogate_tlb]
  refine ⟨tlbOnly_saveTLBEntry k i, fun j _ hv => ?_, fun f hf => ?_⟩
  · rw [htlb] at hv ⊢
    split at hv
    · cases hv
    · rename_i hne
      rw [if_neg hne]
      exact ⟨hv, rfl, rfl⟩
  · exact dirtyFrame_propogate (saveTLBEntry k i) i rfl (fun j hne => by rw [htlb, if_neg hne]) hf

theorem shrinks_foldl_save (l : List Nat) (k : Kernel) : TLBShrinks k (l.foldl saveTLBEntry k) := by
  induction l generalizing k with
  | nil => exact .refl k
  | cons i l ih => exact (shrinks_saveTLBEntry k i).trans (ih _)

theorem shrinks_saveState (k : Kernel) : TLBShrinks k (saveState k) := shrinks_foldl_save _ k

theorem foldl_save_invalid {l : List Nat} {k : Kernel} {i : Nat}
    (h : i ∈ l ∨ (k.tlb i).valid = false) : ((l.foldl saveTLBEntry k).tlb i).valid = false := by
  induction l generalizing k with
  | nil => simpa using h
  | cons j l ih =>
    refine ih ?_
    by_cases heq : i = j
    · right
      simp [saveTLBEntry, modTLB_tlb, heq]
    · rcases h with h | h
      · exact .inl ((List.mem_cons.mp h).resolve_left heq)
      · right
        simp [saveTLBEntry, modTLB_tlb, heq, h]

/-- `SaveState` leaves no valid TLB entry. -/
theorem saveState_invalid (k : Kernel) {i : Nat} (hi : i < TLBSize) :
    ((saveState k).tlb i).valid = false :=
  foldl_save_invalid (.inl (List.mem_range.mpr hi))

/-! ## The TLB loop of `handleMemoryFull` -/

theorem tlbEntryOfFrame_some {k : Kernel} {ppn i : Nat} (h : tlbEntryOfFrame k ppn = some i) :
    i < TLBSize ∧ (k.tlb i).valid = true ∧ (k.tlb i).physicalPage = (ppn : Int) := by
  obtain ⟨hfound, n, hn, heq, -⟩ := List.find?_eq_some_iff_getElem.mp h
  simp only [List.length_range, List.getElem_range] at hn heq
  subst heq
  simp only [Bool.and_eq_true, decide_eq_true_eq] at hfound
  exact ⟨hn, hfound⟩

theorem tlbEntryOfFrame_none {k : Kernel} {ppn i : Nat} (h : tlbEntryOfFrame k ppn = none)
    (hi : i < TLBSize) (hv : (k.tlb i).valid = true) : (k.tlb i).physicalPage ≠ (ppn : Int) := by
  have := List.find?_eq_none.mp h i (List.mem_range.mpr hi)
  simpa [hv] using this

theorem dropFrame_some {k : Kernel} {ppn i : Nat} (h : tlbEntryOfFrame k ppn = some i) (j : Nat) :
    (dropFrameFromTLB k ppn).tlb j =
      if j = i then { k.tlb i with valid := false } else k.tlb j := by
  simp only [dropFrameFromTLB, h]
  rw [modTLB_tlb]
  split <;> split <;> rfl

theorem shrinks_dropFrame (k : Kernel) (ppn : Nat) : TLBShrinks k (dropFrameFromTLB k ppn) := by
  refine ⟨tlbOnly_dropFrame k ppn, fun j _ hv => ?_, fun f hf => ?_⟩
  · cases h : tlbEntryOfFrame k ppn with
    | none =>
      have hsame : dropFrameFromTLB k ppn = k := by simp [dropFrameFromTLB, h]
      rw [hsame] at hv ⊢
      exact ⟨hv, rfl, rfl⟩
    | some i =>
      rw [dropFrame_some h] at hv ⊢
      split at hv
      · cases hv
      · rename_i hne
        rw [if_neg hne]
        exact ⟨hv, rfl, rfl⟩
  · cases h : tlbEntryOfFrame k ppn with
    | none => simpa only [dropFrameFromTLB, h] using hf
    | some i =>
      rcases hf with hd | ⟨j, hj, hv, hp, hd⟩
      · exact .inl ((tlbOnly_dropFrame k ppn).dirty f hd)
      · by_cases heq : j = i
        · subst heq
          have hfp : f = ppn := by
            have := hp.symm.trans (tlbEntryOfFrame_some h).2.2
            exact_mod_cast this
          subst hfp
          left
          simp [dropFrameFromTLB, h, hd, modIPT_IPT, Kernel.modTLB]
        · right
          refine ⟨j, hj, ?_⟩
          rw [dropFrame_some h, if_neg heq]
          exact ⟨hv, hp, hd⟩

/-- After the loop no entry is left for the frame. -/
theorem TLBInv.dropFrame_gone {k : Kernel} (h : TLBInv k) {ppn i : Nat} (hi : i < TLBSize)
    (hv : ((dropFrameFromTLB k ppn).tlb i).valid = true) :
    ((dropFrameFromTLB k ppn).tlb i).physicalPage ≠ (ppn : Int) := by
  cases hfind : tlbEntryOfFrame k ppn with
  | none =>
    simp only [dropFrameFromTLB, hfind] at hv ⊢
    exact tlbEntryOfFrame_none hfind hi hv
  | some j =>
    obtain ⟨hj, hjv, hjp⟩ := tlbEntryOfFrame_some hfind
    rw [dropFrame_some hfind] at hv ⊢
    split at hv
    · cases hv
    · rename_i hne
      rw [if_neg hne]
      intro hp
      exact hne (h.inj i hi j hj hv hjv (hp.trans hjp.symm))

/-- So a dirty victim is dirty in the IPT. -/
theorem TLBInv.dropFrame_dirty {k : Kernel} (h : TLBInv k) {ppn : Nat} (hd : DirtyFrame k ppn) :
    ((dropFrameFromTLB k ppn).IPT ppn).dirty = true := by
  rcases (shrinks_dropFrame k ppn).stillDirty ppn hd with hd | ⟨i, hi, hv, hp, -⟩
  · exact hd
  · exact absurd hp (h.dropFrame_gone hi hv)

/-! ## Translation and filling the TLB -/

theorem shrinks_translate {k k' : Kernel} {addr pa : Nat} {w : Bool}
    (h : translate k addr w = .ok (k', pa)) : TLBShrinks k k' := by
  have ht := tlbOnly_translate h
  obtain ⟨i, f, -, -, -, -, -, -, rfl⟩ := translate_ok h
  refine ⟨ht, fun j _ hv => ?_, fun g hg => ?_⟩
  · rw [modTLB_tlb] at hv ⊢
    split at hv
    · rename_i heq
      rw [if_pos heq, heq]
      exact ⟨hv, rfl, rfl⟩
    · rename_i hne
      rw [if_neg hne]
      exact ⟨hv, rfl, rfl⟩
  · rcases hg with hd | ⟨j, hj, hv, hp, hd⟩
    · exact .inl hd
    · right
      refine ⟨j, hj, ?_⟩
      rw [modTLB_tlb]
      split
      · rename_i heq
        subst heq
        exact ⟨hv, hp, by simp [hd]⟩
      · exact ⟨hv, hp, hd⟩

theorem populate_tlb (k : Kernel) (ppn j : Nat) :
    (populateTLBFromIPTEntry k ppn).tlb j = if j = k.currentTLB then
      ((propogateCurTLBDirty k k.currentTLB).IPT ppn).toTranslationEntry else k.tlb j := by
  have hcur : (propogateCurTLBDirty k k.currentTLB).currentTLB = k.currentTLB := by
    unfold propogateCurTLBDirty
    split <;> rfl
  refine (Function.update_apply _ _ _ _).trans ?_
  rw [hcur, propogate_tlb]

theorem populate_stillDirty {k : Kernel} {ppn f : Nat} (h : DirtyFrame k f) :
    DirtyFrame (populateTLBFromIPTEntry k ppn) f :=
  dirtyFrame_propogate (populateTLBFromIPTEntry k ppn) k.currentTLB rfl
    (fun j hne => by rw [populate_tlb, if_neg hne]) h

/-- Entering a resident page of the running space that the TLB does not hold. -/
theorem TLBInv.populate {k : Kernel} (h : TLBInv k) (hf : FrameInv none k) {ppn : Nat}
    (hlt : ppn < NumPhysPages) (hvalid : (k.IPT ppn).valid = true)
    (hcur : k.currentSpace = some (k.IPT ppn).PID)
    (hmiss : ∀ i < TLBSize, (k.tlb i).valid = true →
      (k.tlb i).virtualPage ≠ (k.IPT ppn).virtualPage) :
    TLBInv (populateTLBFromIPTEntry k ppn) := by
  have ht := tlbOnly_populate k ppn
  have hcur' : (populateTLBFromIPTEntry k ppn).currentSpace = k.currentSpace := by
    simp only [Kernel.currentSpace, ht.currentThread, ht.threads]
  have hprop := tlbOnly_propogate k k.currentTLB
  -- the entries that stay are not about this frame
  have hother : ∀ j < TLBSize, (k.tlb j).valid = true → (k.tlb j).physicalPage ≠ (ppn : Int) := by
    intro j hj hv hp
    obtain ⟨f, -, hpf, -, -, hvf⟩ := h.entry j hj hv
    have hfp : f = ppn := by exact_mod_cast hpf.symm.trans hp
    subst hfp
    exact hmiss j hj hv hvf
  have hpp : ((propogateCurTLBDirty k k.currentTLB).IPT ppn).physicalPage = (ppn : Int) := by
    rw [hprop.physicalPage]
    exact hf.frame ppn hlt hvalid
  refine ⟨fun i hi hv => ?_, fun i hi j hj hv hv' heq => ?_⟩
  · rw [populate_tlb] at hv
    simp only [ht.valid, ht.PID, ht.virtualPage, hcur', populate_tlb]
    by_cases hic : i = k.currentTLB
    · rw [if_pos hic]
      exact ⟨ppn, hlt, hpp, hvalid, hcur, hprop.virtualPage ppn⟩
    · rw [if_neg hic] at hv ⊢
      exact h.entry i hi hv
  · rw [populate_tlb] at hv hv' heq
    rw [populate_tlb k ppn j] at heq
    by_cases hic : i = k.currentTLB <;> by_cases hjc : j = k.currentTLB
    · rw [hic, hjc]
    · rw [if_pos hic, if_neg hjc, hpp] at heq
      rw [if_neg hjc] at hv'
      exact absurd heq.symm (hother j hj hv')
    · rw [if_neg hic, if_pos hjc, hpp] at heq
      rw [if_neg hic] at hv
      exact absurd heq (hother i hi hv)
    · rw [if_neg hic] at hv heq
      rw [if_neg hjc] at hv' heq
      exact h.inj i hi j hj hv hv' heq

theorem SameLayout.currentSpace {k k' : Kernel} (h : SameLayout k k') :
    k'.currentSpace = k.currentSpace := by
  simp only [Kernel.currentSpace, h.currentThread, h.threads]

theorem currentSpace_some {k : Kernel} {s : Nat} (h : k.currentSpace = some s) :
    ∃ tid, k.currentThread = some tid ∧ k.threads tid = some (some s) := by
  unfold Kernel.currentSpace at h
  cases hc : k.currentThread with
  | none => simp [hc] at h
  | some tid =>
    refine ⟨tid, rfl, ?_⟩
    exact Option.join_eq_some_iff.mp (by simpa [hc] using h)

/-- Without a running space the TLB is empty. -/
theorem TLBInv.empty_of_none {k : Kernel} (h : TLBInv k) (hnone : k.currentSpace = none) :
    ∀ i < TLBSize, (k.tlb i).valid = false := by
  intro i hi
  by_contra hv
  obtain ⟨f, -, -, -, hcur, -⟩ := h.entry i hi (by simpa using hv)
  rw [hnone] at hcur
  cases hcur

/-! ## Faults -/

/-- Finding a frame drops the TLB entry of the victim and no other. -/
theorem TLBInv.findFrame {k k' : Kernel} (h : TLBInv k) (hf : FrameInv none k) {r ppn : Nat}
    (hfind : VM.findFrame k r = .ok (k', ppn)) :
    TLBInv k' ∧ ∀ i < TLBSize, (k'.tlb i).valid = true →
      (k.tlb i).valid = true ∧ (k'.tlb i).virtualPage = (k.tlb i).virtualPage := by
  rcases findFrame_spec hfind with ⟨fb, -, rfl⟩ | ⟨-, hfull⟩
  · exact ⟨h.congr rfl (fun _ hc => hc) (fun _ _ _ _ _ => rfl), fun _ _ hv => ⟨hv, rfl⟩⟩
  · obtain ⟨-, hlt, hv, he⟩ := handleMemoryFull_spec hfull
    have he := he (hf.entry ppn hlt hv).1
    have hdrop := shrinks_dropFrame k ppn
    have htlb : k'.tlb = (dropFrameFromTLB k ppn).tlb := by rw [he.rest]
    refine ⟨(h.shrinks hdrop).congr htlb (fun s hs => ?_) fun i hi hval f hpf => ?_,
      fun i hi hval => ?_⟩
    · rw [he.sameLayout.currentSpace]
      exact hs
    · rw [he.IPT, if_neg]
      rintro rfl
      exact h.dropFrame_gone hi hval hpf
    · rw [htlb] at hval ⊢
      obtain ⟨hv₀, hvp, -⟩ := hdrop.sub i hi hval
      exact ⟨hv₀, hvp⟩

/-- **A TLB miss of the running space** keeps the TLB coherent. -/
theorem TLBInv.missed {k k' : Kernel} (h : TLBInv k) (hsound : Sound k) {s addr r : Nat}
    (hcur : k.currentSpace = some s) (hmiss : tlbEntryOfPage k (addr / PageSize) = none)
    (hm : handleTLBMiss k s addr r = .ok k') : TLBInv k' := by
  rcases handleTLBMiss_cases hsound.spaces hsound.frames hm with
    ⟨ppn, hl, rfl⟩ | ⟨k₁, ppn, sp', k₂, k₃, hl, hin, rfl⟩
  · obtain ⟨hlt, hvalid, hPID, hvp⟩ := lookupIPT_some hl
    exact h.populate hsound.frames hlt hvalid (by rw [hPID]; exact hcur)
      fun i hi hv => by rw [hvp]; exact tlb_miss hmiss hi hv
  · have hp : k.HasPage s (addr / PageSize) := (hin.foundLayout.hasPage s _).mp hin.page
    obtain ⟨htlb₁, hsub⟩ := h.findFrame hsound.frames hin.found
    have hk₂ := loadPage_same hin.load
    have hlay₃ : SameLayout k k₃ := (hin.foundLayout.trans (loadPage_sameLayout hin.load)).trans
      hin.recorded.sameLayout
    have htlbEq : k₃.tlb = k₁.tlb := by rw [hin.recorded.rest, hk₂]
    have hIPT₂ : k₂.IPT = k₁.IPT := by rw [hk₂]
    have htlb₃ : TLBInv k₃ := by
      refine htlb₁.congr htlbEq (fun t hc => ?_) fun i hi hv f hpf => ?_
      · rw [hlay₃.currentSpace, ← hin.foundLayout.currentSpace]
        exact hc
      · -- the frame being filled has no TLB entry yet
        obtain ⟨g, -, hpg, hgv, -, -⟩ := htlb₁.entry i hi hv
        have hgf : g = f := by exact_mod_cast hpg.symm.trans hpf
        subst hgf
        rw [hin.recorded.IPT, if_neg, hIPT₂]
        rintro rfl
        rw [(hin.foundInv.taken g rfl).2.2] at hgv
        cases hgv
    have hentry : (k₃.IPT ppn).valid = true ∧ (k₃.IPT ppn).PID = s ∧
        (k₃.IPT ppn).virtualPage = addr / PageSize := by
      rw [hin.recorded.IPT, if_pos rfl]
      refine ⟨rfl, rfl, ?_⟩
      have hpage₂ : k₂.page = k₁.page := by rw [hk₂]; rfl
      rw [hpage₂, hin.foundPage]
      exact hsound.spaces.vpn s _ hp
    refine htlb₃.populate hin.recordedInv (hin.foundInv.taken ppn rfl).1 hentry.1 ?_
      fun i hi hv => ?_
    · rw [hentry.2.1, hlay₃.currentSpace]
      exact hcur
    · rw [hentry.2.2]
      rw [htlbEq] at hv ⊢
      obtain ⟨hv₀, hvp⟩ := hsub i hi hv
      rw [hvp]
      exact tlb_miss hmiss hi hv₀

end Nachos.VM

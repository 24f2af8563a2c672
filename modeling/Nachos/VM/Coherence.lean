import Nachos.VM.TLB

/-!
# The TLB is coherent

In every reachable state the valid TLB entries are copies of IPT entries of the running
space, no two of them agree in a page, and a resident page that differs from the copy it was
loaded from is dirty in its IPT entry or in its TLB entry.

The copy is recorded beside the machine (`Copies`), from the executable or the swap file and not
from the frame it went to: the step that loads a page is the one that counts in `loads`, and its
frame is then the last of the eviction queue.
-/

namespace Nachos.VM

/-! ## What was loaded -/

/-- The copy that the page of each frame was loaded from. -/
def Copies : Type := Nat → Nat → UInt8

/-- The frame that a page was loaded into between two states. -/
def loadedFrame (k k' : Kernel) : Option Nat :=
  if k'.loads = k.loads then none else k'.FIFOList.getLast?

/-- The byte that the fault of a byte access brings in, from the executable or the swap file
(`Kernel.incoming`), in the state in which it has found its frame. -/
def Kernel.fetched (k : Kernel) (op : Op) (ppn j : Nat) : Option UInt8 := do
  let addr ← op.address
  let (_, s, _) ← k.running
  let (k, _) ← (findFrame k op.random).toOption
  let sp ← k.spaces s
  some (k.incoming sp (addr / PageSize) ppn j)

/-- The copy of a page that is loaded is recorded. -/
def Copies.record (m : Copies) (k : Kernel) (op : Op) (k' : Kernel) : Copies := fun f j =>
  if loadedFrame k k' = some f then (k.fetched op f j).getD (m f j) else m f j

/-- A step of the machine beside the record. -/
def CopyStep (c : Kernel × Copies) (op : Op) (c' : Kernel × Copies) : Prop :=
  Step c.1 op c'.1 ∧ c'.2 = c.2.record c.1 op c'.1

theorem Copies.record_of_loads {k k' : Kernel} (m : Copies) (op : Op) (h : k'.loads = k.loads) :
    m.record k op k' = m := by
  funext f j
  rw [Copies.record, loadedFrame, if_pos h, if_neg (Option.some_ne_none f).symm]

/-- The resident pages that differ from their copies are dirty. -/
def CleanInv (k : Kernel) (m : Copies) : Prop :=
  ∀ f < NumPhysPages, (k.IPT f).valid = true →
    ∀ j < PageSize, k.mainMemory (f * PageSize + j) ≠ m f j → DirtyFrame k f

/-- No page was loaded or written to, and no dirty page became clean. -/
structure KeepsFrames (k k' : Kernel) : Prop where
  loads : k'.loads = k.loads
  mainMemory : k'.mainMemory = k.mainMemory
  valid : ∀ f, (k'.IPT f).valid = true → (k.IPT f).valid = true
  dirty : ∀ f, DirtyFrame k f → DirtyFrame k' f

namespace KeepsFrames

variable {k k₁ k₂ : Kernel}

theorem refl (k : Kernel) : KeepsFrames k k := ⟨rfl, rfl, fun _ h => h, fun _ h => h⟩

theorem trans (h₁ : KeepsFrames k k₁) (h₂ : KeepsFrames k₁ k₂) : KeepsFrames k k₂ :=
  ⟨h₂.loads.trans h₁.loads, h₂.mainMemory.trans h₁.mainMemory,
    fun f hv => h₁.valid f (h₂.valid f hv), fun f hd => h₂.dirty f (h₁.dirty f hd)⟩

theorem shrinks (h : TLBShrinks k k₁) : KeepsFrames k k₁ :=
  ⟨h.loads, h.mainMemory, fun f hv => by rwa [h.valid] at hv, h.stillDirty⟩

/-- The frames do not depend on the spaces and threads. -/
theorem tables (hk : k₁ = { k with
    spaces := k₁.spaces, spaceCount := k₁.spaceCount, threads := k₁.threads,
    threadIDCount := k₁.threadIDCount, currentThread := k₁.currentThread }) :
    KeepsFrames k k₁ := by
  rw [hk]
  exact ⟨rfl, rfl, fun _ h => h, fun _ h => h⟩

theorem freed {s v : Nat} (h : PageFreed k s v k₁) : KeepsFrames k k₁ := by
  have htlb : k₁.tlb = k.tlb := by rw [h.rest]
  have hIPT : ∀ f, ((k₁.IPT f).valid = true → (k.IPT f).valid = true) ∧
      (k₁.IPT f).dirty = (k.IPT f).dirty := by
    intro f
    by_cases hmain : (k.page s v).valid = true ∧ (k.page s v).location = .MAIN
    · rw [(h.main hmain.1 hmain.2).2.1 f]
      split
      · exact ⟨fun hv => (by cases hv), rfl⟩
      · exact ⟨fun hv => hv, rfl⟩
    · rw [(h.notMain hmain).2.1]
      exact ⟨fun hv => hv, rfl⟩
  exact ⟨by rw [h.rest], by rw [h.rest], fun f => (hIPT f).1,
    fun f hd => hd.congr htlb (hIPT f).2⟩

theorem exited {s : Nat} {pages : List Nat} (hpages : ∀ v ∈ pages, k.HasPage s v) :
    KeepsFrames k (clearStack k s pages) := by
  have hloop := exitLoop_rule (I := KeepsFrames k) (pages.take 8)
    (fun v hv => hpages v (List.mem_of_mem_take hv))
    (fun k₁ v _ _ hp hk₁ => hk₁.trans (.freed (exitPage_spec hp))) (.refl k)
  exact hloop.2.trans (.shrinks (shrinks_saveState _))

theorem deleted (s : Nat) (junk : Nat → Int) : KeepsFrames k (deleteSpace k s junk) := by
  obtain ⟨-, -, -, hloop⟩ := deleteLoop_rule (I := KeepsFrames k) s junk
    (fun n hn hlay hv hk₁ =>
      hk₁.trans (.freed (deletePage_spec junk ((hlay.hasPage s n).mpr hn) hv))) (.refl k) le_rfl
  exact (hloop.trans (.shrinks (shrinks_saveState _))).trans (.tables rfl)

end KeepsFrames

/-- Finding a frame leaves the others as they are. -/
theorem FrameInv.findFrame_keeps {k k' : Kernel} (hf : FrameInv none k) {r ppn : Nat}
    (hfind : VM.findFrame k r = .ok (k', ppn)) :
    (∀ f, f ≠ ppn → (k'.IPT f).valid = true →
      (k.IPT f).valid = true ∧ (DirtyFrame k f → DirtyFrame k' f)) ∧
      k'.loads = k.loads ∧ k'.mainMemory = k.mainMemory := by
  rcases findFrame_spec hfind with ⟨fb, -, rfl⟩ | ⟨-, hfull⟩
  · exact ⟨fun f _ hv => ⟨hv, fun hd => hd⟩, rfl, rfl⟩
  · obtain ⟨-, hlt, hv, he⟩ := handleMemoryFull_spec hfull
    have he := he (hf.entry ppn hlt hv).1
    have hdrop := shrinks_dropFrame k ppn
    refine ⟨fun f hne hv => ?_, ?_, ?_⟩
    · have hIPT := he.IPT f
      rw [if_neg hne] at hIPT
      rw [hIPT, hdrop.valid] at hv
      exact ⟨hv, fun hd => (hdrop.stillDirty f hd).congr (by rw [he.rest]) (by rw [hIPT])⟩
    · rw [he.rest, ← hdrop.loads]
    · rw [he.rest, ← hdrop.mainMemory]

namespace CleanInv

variable {k k' : Kernel} {m : Copies}

theorem keeps (h : CleanInv k m) (op : Op) (hk : KeepsFrames k k') :
    CleanInv k' (m.record k op k') := by
  intro f hf hv j hj hne
  rw [m.record_of_loads op hk.loads, hk.mainMemory] at hne
  exact hk.dirty f (h f hf (hk.valid f hv) j hj hne)

/-- A completed store makes its page dirty. -/
theorem store (h : CleanInv k m) (op : Op) {addr pa : Nat} {value : UInt8}
    (htr : translate k addr true = .ok (k', pa)) :
    CleanInv { k' with mainMemory := Function.update k'.mainMemory pa value }
      (m.record k op { k' with mainMemory := Function.update k'.mainMemory pa value }) := by
  have hsh := shrinks_translate htr
  obtain ⟨i, g, hi, hvalid, -, hpp, -, rfl, hk'⟩ := translate_ok htr
  have hrecord : m.record k op { k' with
      mainMemory := Function.update k'.mainMemory (g * PageSize + addr % PageSize) value } = m :=
    m.record_of_loads op hsh.loads
  intro f hf hv j hj hne
  rw [hrecord] at hne
  by_cases hfg : f = g
  · -- the frame that was written to
    subst hfg
    refine .inr ⟨i, hi, ?_⟩
    change (k'.tlb i).valid = true ∧ _ = _ ∧ (k'.tlb i).dirty = true
    rw [hk', modTLB_tlb, if_pos rfl]
    exact ⟨hvalid, hpp, by simp⟩
  · have hbyte : f * PageSize + j ≠ g * PageSize + addr % PageSize := by
      intro heq
      have hmod : addr % 128 < 128 := Nat.mod_lt _ (by decide)
      change f * 128 + j = g * 128 + addr % 128 at heq
      change j < 128 at hj
      omega
    dsimp only at hne
    rw [Function.update_of_ne hbyte, hsh.mainMemory] at hne
    have hold := h f hf (by rw [← hsh.valid]; exact hv) j hj hne
    exact hsh.stillDirty f hold

/-- A fault loads the copy that is recorded, and the other frames stay as they are. -/
theorem missed (h : CleanInv k m) (hsound : Sound k) {op : Op} {tid s addr : Nat} {sp : AddrSpace}
    (hop : op.address = some addr) (hrun : k.running = some (tid, s, sp))
    (hm : handleTLBMiss k s addr op.random = .ok k') : CleanInv k' (m.record k op k') := by
  rcases handleTLBMiss_cases hsound.spaces hsound.frames hm with
    ⟨ppn, hl, rfl⟩ | ⟨k₁, ppn, sp', k₂, k₃, hl, hin, rfl⟩
  · have ht := tlbOnly_populate k ppn
    exact h.keeps op ⟨ht.loads, ht.mainMemory, fun f hv => by rwa [ht.valid] at hv,
      fun f => populate_stillDirty⟩
  · have ht := tlbOnly_populate k₃ ppn
    have hk₂ := loadPage_same hin.load
    obtain ⟨hfound, hloads₁, hmem₁⟩ := hsound.frames.findFrame_keeps hin.found
    have hloaded : loadedFrame k (populateTLBFromIPTEntry k₃ ppn) = some ppn := by
      have hloads : (populateTLBFromIPTEntry k₃ ppn).loads = k.loads + 1 := by
        rw [ht.loads, hin.recorded.loads, hk₂, ← hloads₁]
      rw [loadedFrame, if_neg (by omega), ht.FIFOList, hin.recorded.FIFOList,
        List.getLast?_append, List.getLast?_singleton]
      rfl
    intro f hf hv j hj hne
    by_cases hfp : f = ppn
    · subst hfp
      have hfetched : k.fetched op f j = some (k₁.incoming sp' (addr / PageSize) f j) := by
        simp [Kernel.fetched, hop, hrun, hin.found, hin.space, Except.toOption]
      rw [Copies.record, if_pos hloaded, hfetched, Option.getD_some, ht.mainMemory,
        hin.recorded.rest, Nat.mul_comm f] at hne
      exact absurd (loadPage_byte hj hin.load) hne
    · rw [Copies.record, hloaded, if_neg fun heq => hfp (Option.some.inj heq).symm, ht.mainMemory]
        at hne
      rw [ht.valid, hin.recorded.IPT, if_neg hfp] at hv
      have hIPT₂ : k₂.IPT = k₁.IPT := by rw [hk₂]
      have hmem : k₃.mainMemory (f * PageSize + j) = k.mainMemory (f * PageSize + j) := by
        rw [← hmem₁, ← loadPage_outside (a := f * PageSize + j) hin.space hin.load]
        · rw [hin.recorded.rest]
        · intro hin'
          change 128 * ppn ≤ f * 128 + j ∧ f * 128 + j < 128 * ppn + 128 at hin'
          change j < 128 at hj
          omega
      rw [hmem] at hne
      rw [hIPT₂] at hv
      obtain ⟨hv₀, hd⟩ := hfound f hfp hv
      have hdirty₁ := hd (h f hf hv₀ j hj hne)
      refine populate_stillDirty (hdirty₁.congr ?_ ?_)
      · rw [hin.recorded.rest, hk₂]
      · rw [hin.recorded.IPT, if_neg hfp, hIPT₂]

end CleanInv

/-! ## Runs -/

/-- The tables, the TLB and the record fit together. -/
structure Coherent (k : Kernel) (m : Copies) : Prop where
  sound : Sound k
  tlb : TLBInv k
  threads : ∀ tid space, k.threads tid = some space → tid < k.threadIDCount
  clean : CleanInv k m

namespace Coherent

variable {k k' : Kernel} {m : Copies}

theorem init (useFIFO : Bool) (m : Copies) : Coherent (Kernel.init useFIFO) m where
  sound := Sound.init useFIFO
  tlb := tlbInv_of_empty fun _ _ => rfl
  threads tid space h := by
    simp only [Kernel.init, Function.update_apply] at h ⊢
    split at h
    · omega
    · cases h
  clean f _ hv := by cases hv

/-- A thread that ends leaves the others. -/
theorem finish_lt (h : Coherent k m) {k' : Kernel} (hthreads : k'.threads = k.threads)
    (hcount : k'.threadIDCount = k.threadIDCount) {tid u : Nat} {space : Option Nat}
    (hu : (k'.finish tid).threads u = some space) : u < (k'.finish tid).threadIDCount := by
  change Function.update k'.threads tid none u = some space at hu
  change u < k'.threadIDCount
  rw [Function.update_apply] at hu
  split at hu
  · cases hu
  · rw [hthreads] at hu
    rw [hcount]
    exact h.threads u space hu

/-- **One step of the machine keeps the TLB coherent.** -/
theorem stepSpec {op : Op} {event : Event} (h : Coherent k m) (hstep : StepSpec k op k' event) :
    Coherent k' (m.record k op k') := by
  have hsound := h.sound.stepSpec hstep
  cases hstep with
  | loadHit hrun htr =>
    have hsh := shrinks_translate htr
    refine ⟨hsound, h.tlb.shrinks hsh, ?_, h.clean.keeps _ (.shrinks hsh)⟩
    rw [hsh.threads, hsh.threadIDCount]
    exact h.threads
  | storeHit hrun htr =>
    have hsh := shrinks_translate htr
    refine ⟨hsound, (h.tlb.shrinks hsh).congr rfl (fun _ hc => hc) (fun _ _ _ _ _ => rfl), ?_,
      h.clean.store _ htr⟩
    rw [hsh.threads]
    intro tid space ht
    exact Nat.lt_of_lt_of_eq (h.threads tid space ht) hsh.threadIDCount.symm
  | miss hop hrun hmiss hfault =>
    have hlay := handleTLBMiss_sameLayout h.sound.spaces h.sound.frames hfault
    refine ⟨hsound, h.tlb.missed h.sound (running_some hrun).2.2.2 hmiss hfault, ?_,
      h.clean.missed h.sound hop hrun hfault⟩
    rw [hlay.threads, hlay.threadIDCount]
    exact h.threads
  | @run tid space hthread =>
    have hsh : TLBShrinks k (if k.currentSpace.isSome then saveState k else k) := by
      split
      · exact shrinks_saveState k
      · exact .refl k
    have hkeep : KeepsFrames k (schedulerRun k tid) :=
      (KeepsFrames.shrinks hsh).trans (.tables rfl)
    refine ⟨hsound, tlbInv_of_empty fun i hi => ?_, ?_, h.clean.keeps _ hkeep⟩
    · -- the switch leaves no entry of the space it switches from
      unfold schedulerRun
      cases hcur : k.currentSpace with
      | some s => exact saveState_invalid k hi
      | none => exact h.tlb.empty_of_none hcur i hi
    · intro tid space ht
      change Kernel.threads (if k.currentSpace.isSome then saveState k else k) tid = some space at ht
      rw [hsh.threads] at ht
      exact Nat.lt_of_lt_of_eq (h.threads tid space ht) hsh.threadIDCount.symm
  | newThread space hspace =>
    refine ⟨hsound, h.tlb.congr rfl (fun s hs => ?_) (fun _ _ _ _ _ => rfl), fun tid sp ht => ?_,
      h.clean.keeps _ (.tables rfl)⟩
    · obtain ⟨tid, hc, ht⟩ := currentSpace_some hs
      have hne : tid ≠ k.threadIDCount := Nat.ne_of_lt (h.threads tid _ ht)
      simp [newThread, Kernel.currentSpace, hc, Function.update_of_ne hne, ht]
    · change Function.update k.threads k.threadIDCount (some space) tid = some sp at ht
      change tid < k.threadIDCount + 1
      rw [Function.update_apply] at ht
      split at ht
      · omega
      · exact Nat.lt_succ_of_lt (h.threads tid sp ht)
  | @create tid hcur hthread exe =>
    have hnone : k.currentSpace = none := by simp [Kernel.currentSpace, hcur, hthread]
    refine ⟨hsound, tlbInv_of_empty (h.tlb.empty_of_none hnone), fun u sp hu => ?_,
      h.clean.keeps _ (.tables rfl)⟩
    change Function.update k.threads tid (some (some k.spaceCount)) u = some sp at hu
    rw [Function.update_apply] at hu
    split at hu
    · rename_i heq
      rw [heq]
      exact h.threads tid _ hthread
    · exact h.threads u sp hu
  | fork hrun hfresh junk =>
    exact ⟨hsound, h.tlb.congr rfl (fun _ hc => hc) (fun _ _ _ _ _ => rfl), h.threads,
      h.clean.keeps _ (.tables rfl)⟩
  | @exit tid s sp pages hrun hpages =>
    have hrange := h.sound.stackPages (running_some hrun).2.2.1 hpages
    obtain ⟨hlay, -⟩ := exitLoop_rule (I := fun _ => True) (pages.take 8)
      (fun v hv => hrange v (List.mem_of_mem_take hv)) (fun _ _ _ _ _ _ => trivial) trivial
    have hlay := hlay.trans (tlbOnly_saveState _).sameLayout
    exact ⟨hsound, tlbInv_of_empty fun i hi => saveState_invalid _ hi,
      fun u space hu => h.finish_lt hlay.threads hlay.threadIDCount hu,
      h.clean.keeps _ ((KeepsFrames.exited hrange).trans (.tables rfl))⟩
  | @delete tid s sp hrun junk =>
    obtain ⟨hlay, -⟩ := deleteLoop_rule (I := fun _ => True) (k := k) s junk
      (fun _ _ _ _ _ => trivial) trivial le_rfl
    have hlay := hlay.trans (tlbOnly_saveState _).sameLayout
    exact ⟨hsound, tlbInv_of_empty fun i hi => saveState_invalid _ hi,
      fun u space hu => h.finish_lt hlay.threads hlay.threadIDCount hu,
      h.clean.keeps _ ((KeepsFrames.deleted s junk).trans (.tables rfl))⟩

end Coherent

/-- **The TLB is coherent** in every reachable state: its valid entries are valid IPT entries
of the running space, no two of them share a page, and a resident page that differs from the
copy in the executable or the swap file that it was loaded from is dirty in the IPT or in the
TLB. -/
theorem tlb_coherence {useFIFO : Bool} {m₀ : Copies} {k : Kernel} {m : Copies}
    (h : Lib.Reachable CopyStep (Kernel.init useFIFO, m₀) (k, m)) :
    (∀ i < TLBSize, (k.tlb i).valid = true → ∃ f < NumPhysPages,
      (k.tlb i).physicalPage = (f : Int) ∧ (k.IPT f).valid = true ∧
      (k.IPT f).virtualPage = (k.tlb i).virtualPage ∧ k.currentSpace = some (k.IPT f).PID) ∧
    (∀ i < TLBSize, ∀ j < TLBSize, i ≠ j → (k.tlb i).valid = true → (k.tlb j).valid = true →
      (k.tlb i).virtualPage ≠ (k.tlb j).virtualPage ∧
      (k.tlb i).physicalPage ≠ (k.tlb j).physicalPage) ∧
    (∀ f < NumPhysPages, (k.IPT f).valid = true →
      (∃ j < PageSize, k.mainMemory (f * PageSize + j) ≠ m f j) → DirtyFrame k f) := by
  have hinv : Coherent k m :=
    h.invariant (I := fun c => Coherent c.1 c.2) (Coherent.init useFIFO m₀)
      fun c op c' hc ⟨⟨hen, event, hnext⟩, hm⟩ => by
        rw [hm]
        exact hc.stepSpec (next_spec hen hnext)
  refine ⟨fun i hi hv => ?_, fun i hi j hj hne hv hv' => ⟨fun hvp => hne ?_, fun hpp => hne ?_⟩,
    fun f hf hv ⟨j, hj, hdiff⟩ => hinv.clean f hf hv j hj hdiff⟩
  · obtain ⟨f, hf, hpf, hfv, hcur, hvf⟩ := hinv.tlb.entry i hi hv
    exact ⟨f, hf, hpf, hfv, hvf.symm, hcur⟩
  · -- two entries of one page are two frames of one page
    obtain ⟨f, hf, hpf, hfv, hcur, hvf⟩ := hinv.tlb.entry i hi hv
    obtain ⟨g, hg, hpg, hgv, hcur', hvg⟩ := hinv.tlb.entry j hj hv'
    have hPID : (k.IPT f).PID = (k.IPT g).PID := Option.some.inj (hcur.symm.trans hcur')
    have hfg := hinv.sound.frames.frame_unique hf hg hfv hgv hPID
      (hvf.symm.trans (hvp.trans hvg))
    exact hinv.tlb.inj i hi j hj hv hv' (by rw [hpf, hpg, hfg])
  · exact hinv.tlb.inj i hi j hj hv hv' hpp

/-- The step beside the record as a function. -/
def copyStep? (c : Kernel × Copies) (op : Op) : Option (Kernel × Copies) :=
  (step? c.1 op).map fun k' => (k', c.2.record c.1 op k')

theorem copyStep_of_copyStep? {c c' : Kernel × Copies} {op : Op} (h : copyStep? c op = some c') :
    CopyStep c op c' := by
  obtain ⟨k', hk', rfl⟩ := Option.map_eq_some_iff.mp h
  exact ⟨step_of_step? hk', rfl⟩

/-- A store to page 0: its TLB entry is the only place where the page is dirty. -/
theorem tlb_coherence_stored : ∃ k m, Lib.Reachable CopyStep
    (Kernel.init true, fun _ _ => 0) (k, m) ∧ (k.IPT 0).dirty = false ∧ DirtyFrame k 0 := by
  have hrun : (Lib.execute copyStep? (Kernel.init true, fun _ _ => 0)
      [.create (.blank PageSize), .store 0 7 0, .store 0 7 0]).any (fun c =>
        decide ((c.1.IPT 0).valid = true ∧ (c.1.IPT 0).dirty = false ∧
          c.1.mainMemory 0 ≠ c.2 0 0)) = true := by
    decide +kernel
  obtain ⟨⟨k, m⟩, hk, hp⟩ := (Option.any_eq_true _ _).mp hrun
  obtain ⟨hvalid, hclean, hdiff⟩ := of_decide_eq_true hp
  have hreach : Lib.Reachable CopyStep (Kernel.init true, fun _ _ => 0) (k, m) :=
    ⟨_, Lib.path_of_execute (fun _ _ _ => copyStep_of_copyStep?) hk⟩
  exact ⟨k, m, hreach, hclean,
    (tlb_coherence hreach).2.2 0 (by decide) hvalid ⟨0, by decide, hdiff⟩⟩

end Nachos.VM

import Nachos.VM.Frames

/-!
# The eviction queue

`FIFOList` should list the frames in use by the time their pages were loaded. Faults,
evictions and `AddrSpace::Exit` keep it that way (`QueueInv`).

## The defect

For each resident page `i`, the destructor of `AddrSpace` looks for the entry to erase with
`FIFOList[ii] == pageTable[ii].physicalPage`: the page it compares with is the one whose
number is the position `ii` in the queue, not the page `i`. The search can find nothing, and
then the freed frame stays in the queue; or it can stop at the frame of a page of another
space, which then is in use and not in the queue.

`ScansHit` says that this does not happen: each search stops at the frame of a resident page
of the space that goes. The frames of the space are then erased in some order, each once, so
the queue is exact again (`QueueInv.deleted`).
-/

namespace Nachos.VM

/-- The queue holds the frames in use, in the order of their loads. -/
structure QueueInv (k : Kernel) : Prop where
  mem : ∀ f, f ∈ k.FIFOList ↔ f < NumPhysPages ∧ (k.IPT f).valid = true
  sorted : k.FIFOList.Pairwise fun f g => k.loadedAt f < k.loadedAt g
  past : ∀ f ∈ k.FIFOList, k.loadedAt f < k.loads

namespace QueueInv

variable {k k' : Kernel}

theorem nodup (h : QueueInv k) : k.FIFOList.Nodup :=
  h.sorted.imp fun hlt heq => by rw [heq] at hlt; exact lt_irrefl _ hlt

theorem congr (h : QueueInv k) (hq : k'.FIFOList = k.FIFOList)
    (hvalid : ∀ f, (k'.IPT f).valid = (k.IPT f).valid) (hloads : k'.loads = k.loads)
    (hat : k'.loadedAt = k.loadedAt) : QueueInv k' where
  mem f := by rw [hq, hvalid]; exact h.mem f
  sorted := by rw [hq, hat]; exact h.sorted
  past := by rw [hq, hat, hloads]; exact h.past

theorem tlbOnly (h : QueueInv k) (ht : TLBOnly k k') : QueueInv k' :=
  h.congr ht.FIFOList ht.valid ht.loads ht.loadedAt

/-- Frames leave the queue as their IPT entries become invalid. -/
theorem shrunk (h : QueueInv k) (hsub : k'.FIFOList.Sublist k.FIFOList)
    (hmem : ∀ f ∈ k.FIFOList, f ∈ k'.FIFOList ↔ (k'.IPT f).valid = true)
    (hvalid : ∀ f, (k'.IPT f).valid = true → (k.IPT f).valid = true)
    (hloads : k'.loads = k.loads) (hat : k'.loadedAt = k.loadedAt) : QueueInv k' where
  mem f := by
    constructor
    · intro hf
      have hold := hsub.subset hf
      exact ⟨((h.mem f).mp hold).1, (hmem f hold).mp hf⟩
    · rintro ⟨hlt, hv⟩
      exact (hmem f ((h.mem f).mpr ⟨hlt, hvalid f hv⟩)).mpr hv
  sorted := by rw [hat]; exact h.sorted.sublist hsub
  past f hf := by rw [hat, hloads]; exact h.past f (hsub.subset hf)

/-- One frame leaves the queue. -/
theorem erased (h : QueueInv k) {ppn : Nat} (hq : k'.FIFOList = k.FIFOList.erase ppn)
    (hIPT : ∀ f, (k'.IPT f).valid = if f = ppn then false else (k.IPT f).valid)
    (hloads : k'.loads = k.loads) (hat : k'.loadedAt = k.loadedAt) : QueueInv k' := by
  refine h.shrunk (by rw [hq]; exact List.erase_sublist) (fun f hf => ?_) (fun f hv => ?_) hloads hat
  · rw [hq, h.nodup.mem_erase_iff, hIPT]
    have hv := ((h.mem f).mp hf).2
    by_cases heq : f = ppn <;> simp [heq, hf, hv]
  · rw [hIPT] at hv
    split at hv
    · cases hv
    · exact hv

theorem findFrame (h : QueueInv k) (hf : FrameInv none k) {r ppn : Nat}
    (hfind : VM.findFrame k r = .ok (k', ppn)) : QueueInv k' := by
  rcases findFrame_spec hfind with ⟨m, -, rfl⟩ | ⟨-, hfull⟩
  · exact h.congr rfl (fun _ => rfl) rfl rfl
  · obtain ⟨-, hlt, hvalid, he⟩ := handleMemoryFull_spec hfull
    have he := he (hf.entry ppn hlt hvalid).1
    refine (h.tlbOnly (tlbOnly_dropFrame k ppn)).erased he.FIFOList (fun f => ?_)
      (by rw [he.rest]) (by rw [he.rest])
    rw [he.IPT]
    split <;> rfl

/-- A loaded page goes to the back, as the youngest. -/
theorem recorded (h : QueueInv k) {s v ppn : Nat} (hf : FrameInv (some ppn) k)
    (hr : Recorded k s v ppn k') : QueueInv k' := by
  obtain ⟨hlt, -, hinvalid⟩ := hf.taken ppn rfl
  have hout : ∀ f ∈ k.FIFOList, f ≠ ppn := by
    rintro f hmem rfl
    rw [((h.mem f).mp hmem).2] at hinvalid
    cases hinvalid
  have hat : ∀ f ∈ k.FIFOList, k'.loadedAt f = k.loadedAt f := fun f hf => by
    rw [hr.loadedAt, Function.update_of_ne (hout f hf)]
  refine ⟨fun f => ?_, ?_, fun f hf => ?_⟩
  · rw [hr.FIFOList, hr.IPT, List.mem_append, List.mem_singleton]
    by_cases heq : f = ppn
    · simp [heq, hlt]
    · simp [heq, h.mem f]
  · rw [hr.FIFOList, List.pairwise_append]
    refine ⟨h.sorted.imp_of_mem fun hf hg hlt' => ?_, by simp, fun f hf g hg => ?_⟩
    · rw [hat _ hf, hat _ hg]; exact hlt'
    · rw [List.mem_singleton.mp hg, hat f hf, hr.loadedAt, Function.update_self]
      exact h.past f hf
  · rw [hr.FIFOList, List.mem_append, List.mem_singleton] at hf
    rw [hr.loads]
    rcases hf with hf | rfl
    · rw [hat f hf]
      exact Nat.lt_succ_of_lt (h.past f hf)
    · rw [hr.loadedAt, Function.update_self]
      exact Nat.lt_succ_self _

theorem missed (h : QueueInv k) (hs : Sound k) {s VA r : Nat}
    (hm : handleTLBMiss k s VA r = .ok k') : QueueInv k' := by
  rcases handleTLBMiss_cases hs.spaces hs.frames hm with
    ⟨ppn, -, rfl⟩ | ⟨k₁, ppn, sp, k₂, k₃, -, hin, rfl⟩
  · exact h.tlbOnly (tlbOnly_populate k ppn)
  · have hk₂ := loadPage_same hin.load
    have h₂ : QueueInv k₂ := (h.findFrame hs.frames hin.found).congr (by rw [hk₂])
      (by rw [hk₂]; simp) (by rw [hk₂]) (by rw [hk₂])
    exact (h₂.recorded (hin.foundInv.loaded hin.load) hin.recorded).tlbOnly
      (tlbOnly_populate k₃ ppn)

end QueueInv

/-! ## `AddrSpace::Exit` -/

theorem exitPage_queue (k : Kernel) (s v : Nat) :
    (exitPage s k v).FIFOList = if (k.page s v).valid = true ∧ (k.page s v).location = .MAIN then
      k.FIFOList.erase (k.page s v).physicalPage.toNat else k.FIFOList := by
  unfold exitPage
  cases hv : (k.page s v).valid <;> cases hl : (k.page s v).location <;>
    simp [hv, hl, Kernel.modPage, removePageFromFIFOQ, freeFrame, clearSwapSlot, Kernel.modIPT]

namespace QueueInv

variable {k : Kernel}

theorem exitPage (h : QueueInv k) {s v : Nat} (hp : k.HasPage s v) :
    QueueInv (exitPage s k v) := by
  have hf := exitPage_spec hp
  have hq := exitPage_queue k s v
  by_cases hres : (k.page s v).valid = true ∧ (k.page s v).location = .MAIN
  · rw [if_pos hres] at hq
    obtain ⟨-, hIPT, -⟩ := hf.main hres.1 hres.2
    refine h.erased hq (fun f => ?_) (by rw [hf.rest]) (by rw [hf.rest])
    rw [hIPT]
    split <;> rfl
  · rw [if_neg hres] at hq
    obtain ⟨-, hIPT, -⟩ := hf.notMain hres
    exact h.congr hq (fun f => by rw [hIPT]) (by rw [hf.rest]) (by rw [hf.rest])

theorem exited (h : QueueInv k) {s : Nat} {pages : List Nat}
    (hpages : ∀ v ∈ pages, k.HasPage s v) : QueueInv (clearStack k s pages) := by
  have hloop := exitLoop_rule (pages.take 8) (fun v hv => hpages v (List.mem_of_mem_take hv))
    (fun k₁ v _ _ hp hk₁ => QueueInv.exitPage hk₁ hp) h
  exact hloop.2.tlbOnly (tlbOnly_saveState _)

end QueueInv

/-! ## The destructor -/

/-- The `n` next searches each stop at a frame with `mine`. -/
def scansHit (physicalPage : Nat → Int) (mine : Nat → Bool) : Nat → List Nat → Bool
  | 0, _ => true
  | n + 1, FIFOList =>
    match scanFIFO FIFOList physicalPage with
    | none => false
    | some ii => mine (FIFOList.getD ii 0) && scansHit physicalPage mine n (FIFOList.eraseIdx ii)

theorem scanFIFO_lt {l : List Nat} {pp : Nat → Int} {ii : Nat} (h : scanFIFO l pp = some ii) :
    ii < l.length := by
  obtain ⟨-, n, hn, heq, -⟩ := List.find?_eq_some_iff_getElem.mp h
  simp only [List.length_range, List.getElem_range] at hn heq
  omega

/-- Erasing an entry with `p` drops one entry with `p` and none without. -/
theorem filter_eraseIdx {p : Nat → Bool} {l : List Nat} {i : Nat} (hi : i < l.length)
    (hp : p (l.getD i 0) = true) :
    (l.eraseIdx i).filter (!p ·) = l.filter (!p ·) ∧
      ((l.eraseIdx i).filter p).length + 1 = (l.filter p).length := by
  induction l generalizing i with
  | nil => simp at hi
  | cons a l ih =>
    cases i with
    | zero =>
      simp only [List.getD_cons_zero] at hp
      simp [hp]
    | succ i =>
      obtain ⟨h1, h2⟩ := ih (by simpa using hi) (by simpa using hp)
      simp only [List.eraseIdx_cons_succ]
      cases ha : p a <;> simp [ha, h1, h2]

theorem filter_of_scansHit {pp : Nat → Int} {mine : Nat → Bool} {n : Nat} {l : List Nat}
    (h : scansHit pp mine n l = true) :
    ((eraseScanned · pp)^[n] l).filter (!mine ·) = l.filter (!mine ·) ∧
      (((eraseScanned · pp)^[n] l).filter mine).length + n = (l.filter mine).length := by
  induction n generalizing l with
  | zero => simp
  | succ n ih =>
    rw [scansHit] at h
    split at h
    · cases h
    · rename_i ii hscan
      simp only [Bool.and_eq_true] at h
      obtain ⟨hkeep, hlen⟩ := filter_eraseIdx (scanFIFO_lt hscan) h.1
      obtain ⟨hkeep', hlen'⟩ := ih h.2
      have herase : eraseScanned l pp = l.eraseIdx ii := by simp [eraseScanned, hscan]
      rw [Function.iterate_succ_apply, herase]
      exact ⟨hkeep'.trans hkeep, by omega⟩

/-- The frame holds a page of the space. -/
def ownedBy (k : Kernel) (s f : Nat) : Bool := (k.IPT f).valid && decide ((k.IPT f).PID = s)

/-- The page is in memory. -/
def resident (k : Kernel) (s v : Nat) : Bool :=
  (k.page s v).valid && decide ((k.page s v).location = .MAIN)

/-- How many of the first `n` pages of the space are in memory. -/
def residentCount (k : Kernel) (s n : Nat) : Nat := ((List.range n).filter (resident k s)).length

/-- The destructor's searches, one for each resident page, all stop at frames of the space
that goes. -/
def ScansHit (k : Kernel) (s : Nat) (junk : Nat → Int) : Prop :=
  scansHit (k.physicalPageAt s junk) (ownedBy k s) (residentCount k s (k.numPages s)) k.FIFOList =
    true

instance (k : Kernel) (s : Nat) (junk : Nat → Int) : Decidable (ScansHit k s junk) :=
  inferInstanceAs (Decidable (_ = _))

theorem deletePage_physicalPage {k : Kernel} {s v : Nat} (junk : Nat → Int) (hp : k.HasPage s v)
    (t w : Nat) :
    ((deletePage s junk k v).page t w).physicalPage = (k.page t w).physicalPage := by
  have hmod : ∀ k₁ : Kernel, k₁.spaces = k.spaces →
      ((k₁.modPage s v ({ · with valid := false })).page t w).physicalPage =
        (k.page t w).physicalPage := by
    intro k₁ hk₁
    have hp₁ : k₁.HasPage s v := by simpa [Kernel.HasPage, Kernel.numPages, hk₁] using hp
    have hpage : k₁.page = k.page := by
      funext t w
      simp [Kernel.page, hk₁]
    rw [modPage_page k₁ s v t w _ hp₁, hpage]
    split
    · rename_i heq; rw [heq.1, heq.2]
    · rfl
  unfold deletePage
  by_cases hv : (k.page s v).valid = true
  · rw [if_pos hv]
    refine hmod _ ?_
    cases (k.page s v).location <;> rfl
  · rw [if_neg hv]

theorem deletePage_queue (k : Kernel) (s v : Nat) (junk : Nat → Int) :
    (deletePage s junk k v).FIFOList = if resident k s v = true then
      eraseScanned k.FIFOList (k.physicalPageAt s junk) else k.FIFOList := by
  unfold deletePage resident
  cases hv : (k.page s v).valid <;> cases hl : (k.page s v).location <;>
    simp [hv, hl, Kernel.modPage, freeFrame, clearSwapSlot, Kernel.modIPT]

theorem deleteLoop_same (k : Kernel) (s : Nat) (junk : Nat → Int) {n : Nat}
    (hn : n ≤ k.numPages s) : SameLayout k (deleteLoop k s junk n) ∧
      (∀ t v, ¬ (t = s ∧ v < n) → (deleteLoop k s junk n).page t v = k.page t v) := by
  have h := deleteLoop_rule (I := fun _ => True) s junk (fun _ _ _ _ _ => trivial) (k := k)
    trivial hn
  exact ⟨h.1, h.2.1⟩

/-- The destructor never writes the array it searches in. -/
theorem deleteLoop_physicalPageAt (k : Kernel) (s : Nat) (junk : Nat → Int) {n : Nat}
    (hn : n ≤ k.numPages s) :
    (deleteLoop k s junk n).physicalPageAt s junk = k.physicalPageAt s junk := by
  induction n with
  | zero => rfl
  | succ n ih =>
    have hlay := (deleteLoop_same k s junk (Nat.le_of_succ_le hn)).1
    have hp : (deleteLoop k s junk n).HasPage s n := (hlay.hasPage s n).mpr hn
    rw [← ih (Nat.le_of_succ_le hn), deleteLoop_succ]
    funext ii
    have hnum : (deletePage s junk (deleteLoop k s junk n) n).numPages =
        (deleteLoop k s junk n).numPages := by
      rw [← deleteLoop_succ, (deleteLoop_same k s junk hn).1.numPages, hlay.numPages]
    simp only [Kernel.physicalPageAt, hnum, deletePage_physicalPage junk hp]

/-- After `n` turns the queue has been searched once for each resident page among the
first `n`. -/
theorem deleteLoop_queue (k : Kernel) (s : Nat) (junk : Nat → Int) {n : Nat}
    (hn : n ≤ k.numPages s) : (deleteLoop k s junk n).FIFOList =
      (eraseScanned · (k.physicalPageAt s junk))^[residentCount k s n] k.FIFOList := by
  induction n with
  | zero => rfl
  | succ n ih =>
    have hn' := Nat.le_of_succ_le hn
    have hpage : resident (deleteLoop k s junk n) s n = resident k s n := by
      simp only [resident, (deleteLoop_same k s junk hn').2 s n (by omega)]
    have hcount : residentCount k s (n + 1) =
        residentCount k s n + if resident k s n = true then 1 else 0 := by
      unfold residentCount
      rw [List.range_succ, List.filter_append, List.length_append]
      cases hr : resident k s n <;> simp [hr]
    rw [deleteLoop_succ, deletePage_queue, deleteLoop_physicalPageAt k s junk hn', hpage, ih hn',
      hcount]
    split
    · rw [Function.iterate_succ_apply']
    · rfl

/-- The destructor's loop frees the frames of the space and no others. -/
structure FramesLeft (k : Kernel) (s : Nat) (k₁ : Kernel) : Prop where
  inv : FrameInv none k₁
  PID : ∀ f, (k₁.IPT f).PID = (k.IPT f).PID
  valid : ∀ f, (k₁.IPT f).valid = true → (k.IPT f).valid = true
  other : ∀ f, (k.IPT f).PID ≠ s → (k₁.IPT f).valid = (k.IPT f).valid
  loads : k₁.loads = k.loads
  loadedAt : k₁.loadedAt = k.loadedAt

theorem FramesLeft.freed {k k₁ k₂ : Kernel} {s v : Nat} (h : FramesLeft k s k₁)
    (hp : k₁.HasPage s v) (hf : PageFreed k₁ s v k₂) : FramesLeft k s k₂ := by
  have hloads : k₂.loads = k.loads := by rw [hf.rest]; exact h.loads
  have hat : k₂.loadedAt = k.loadedAt := by rw [hf.rest]; exact h.loadedAt
  by_cases hres : (k₁.page s v).valid = true ∧ (k₁.page s v).location = .MAIN
  · obtain ⟨g, -, hpp, -, hgs, -⟩ := h.inv.pageFrame hp hres.1 hres.2
    obtain ⟨-, hIPT, -⟩ := hf.main hres.1 hres.2
    have hto : (k₁.page s v).physicalPage.toNat = g := by omega
    rw [hto] at hIPT
    refine ⟨h.inv.freed hp hf, fun f => ?_, fun f hv => ?_, fun f hne => ?_, hloads, hat⟩
    · rw [hIPT, ← h.PID f]
      split <;> rfl
    · rw [hIPT] at hv
      split at hv
      · cases hv
      · exact h.valid f hv
    · rw [hIPT, if_neg]
      · exact h.other f hne
      · rintro rfl
        exact hne ((h.PID f).symm.trans hgs)
  · obtain ⟨-, hIPT, -⟩ := hf.notMain hres
    exact ⟨h.inv.freed hp hf, fun f => by rw [hIPT]; exact h.PID f,
      fun f hv => h.valid f (by rw [hIPT] at hv; exact hv),
      fun f hne => by rw [hIPT]; exact h.other f hne, hloads, hat⟩

/-- What the destructor leaves of the frames: those of the other spaces. -/
theorem deleteLoop_frames {k : Kernel} (h : FrameInv none k) (s : Nat) (junk : Nat → Int) :
    FramesLeft k s (deleteLoop k s junk (k.numPages s)) ∧
      ∀ f < NumPhysPages, ((deleteLoop k s junk (k.numPages s)).IPT f).valid = true ↔
        (k.IPT f).valid = true ∧ (k.IPT f).PID ≠ s := by
  obtain ⟨hlay, -, hinv, hleft⟩ := deleteLoop_rule s junk (I := FramesLeft k s)
    (fun n hn hlay hv hk₁ => hk₁.freed ((hlay.hasPage s n).mpr hn)
      (deletePage_spec junk ((hlay.hasPage s n).mpr hn) hv))
    ⟨h, fun _ => rfl, fun _ hv => hv, fun _ _ => rfl, rfl, rfl⟩ le_rfl
  refine ⟨hleft, fun f hf => ⟨fun hv => ⟨hleft.valid f hv, fun hPID => ?_⟩, fun hv => ?_⟩⟩
  · obtain ⟨hp, hvalid, -⟩ := hleft.inv.entry f hf hv
    rw [hleft.PID f, hPID] at hp hvalid
    rw [hinv _ ((hlay.hasPage s _).mp hp)] at hvalid
    cases hvalid
  · rw [hleft.other f hv.2]
    exact hv.1

/-- The space has as many resident pages as frames in the queue. -/
theorem QueueInv.owned_length {k : Kernel} (h : QueueInv k) (hf : FrameInv none k) (s : Nat) :
    (k.FIFOList.filter (ownedBy k s)).length = residentCount k s (k.numPages s) := by
  have hmem : ∀ f, f ∈ k.FIFOList.filter (ownedBy k s) ↔
      f < NumPhysPages ∧ (k.IPT f).valid = true ∧ (k.IPT f).PID = s := by
    intro f
    simp only [List.mem_filter, h.mem f, ownedBy, Bool.and_eq_true, decide_eq_true_eq]
    tauto
  have hperm : ((k.FIFOList.filter (ownedBy k s)).map fun f => (k.IPT f).virtualPage).Perm
      ((List.range (k.numPages s)).filter (resident k s)) := by
    refine (List.perm_ext_iff_of_nodup ?_ (List.nodup_range.filter _)).mpr fun v => ?_
    · refine (h.nodup.filter _).map_on fun f hfm g hgm heq => ?_
      obtain ⟨hf1, hf2, hf3⟩ := (hmem f).mp hfm
      obtain ⟨hg1, hg2, hg3⟩ := (hmem g).mp hgm
      exact hf.frame_unique hf1 hg1 hf2 hg2 (hf3.trans hg3.symm) heq
    · simp only [List.mem_map, hmem, List.mem_filter, List.mem_range, resident, Bool.and_eq_true,
        decide_eq_true_eq]
      constructor
      · rintro ⟨f, ⟨hlt, hv, rfl⟩, rfl⟩
        obtain ⟨hp, hpv, hpm, -⟩ := hf.entry f hlt hv
        exact ⟨hp, hpv, hpm⟩
      · rintro ⟨hp, hpv, hpm⟩
        obtain ⟨f, hlt, hv, hs, hvp⟩ := hf.page s v hp hpv hpm
        exact ⟨f, ⟨hlt, hv, hs⟩, hvp⟩
  have := hperm.length_eq
  rw [List.length_map] at this
  exact this

theorem filter_not_eq_self {l : List Nat} {p : Nat → Bool} (h : l.filter p = []) :
    l.filter (!p ·) = l := by
  rw [List.filter_eq_self]
  intro a ha
  simpa using List.filter_eq_nil_iff.mp h a ha

/-- When every search hits, what is left of the queue is the frames of the other spaces. -/
theorem deleteLoop_queue_eq {k : Kernel} (h : QueueInv k) (hf : FrameInv none k) {s : Nat}
    {junk : Nat → Int} (hscan : ScansHit k s junk) :
    (deleteLoop k s junk (k.numPages s)).FIFOList = k.FIFOList.filter (!ownedBy k s ·) := by
  obtain ⟨hkeep, hlen⟩ := filter_of_scansHit hscan
  rw [deleteLoop_queue k s junk le_rfl, ← hkeep]
  rw [h.owned_length hf s] at hlen
  exact (filter_not_eq_self (List.eq_nil_of_length_eq_zero (by omega))).symm

theorem QueueInv.deleted {k : Kernel} (h : QueueInv k) (hf : FrameInv none k) {s : Nat}
    {junk : Nat → Int} (hscan : ScansHit k s junk) : QueueInv (deleteSpace k s junk) := by
  obtain ⟨hleft, hvalid⟩ := deleteLoop_frames hf s junk
  have hq := deleteLoop_queue_eq h hf hscan
  have hloop : QueueInv (deleteLoop k s junk (k.numPages s)) := by
    refine h.shrunk (by rw [hq]; exact List.filter_sublist) (fun f hmem => ?_) hleft.valid
      hleft.loads hleft.loadedAt
    obtain ⟨hlt, hv⟩ := (h.mem f).mp hmem
    rw [hq, List.mem_filter, hvalid f hlt]
    simp [hmem, hv, ownedBy]
  exact (hloop.tlbOnly (tlbOnly_saveState _)).congr rfl (fun _ => rfl) rfl rfl

/-! ### The condition is exact -/

theorem eraseScanned_sublist (l : List Nat) (pp : Nat → Int) :
    (eraseScanned l pp).Sublist l := by
  unfold eraseScanned
  split
  · exact List.eraseIdx_sublist _ _
  · exact List.Sublist.refl _

theorem iterate_eraseScanned_sublist (pp : Nat → Int) (n : Nat) (l : List Nat) :
    ((eraseScanned · pp)^[n] l).Sublist l := by
  induction n generalizing l with
  | zero => exact List.Sublist.refl _
  | succ n ih =>
    rw [Function.iterate_succ_apply]
    exact (ih _).trans (eraseScanned_sublist l pp)

/-- The entry at the erased position is gone from a list without duplicates. -/
theorem getD_notMem_eraseIdx {l : List Nat} (hl : l.Nodup) {i : Nat} (hi : i < l.length) :
    l.getD i 0 ∉ l.eraseIdx i := by
  rw [List.getD_eq_getElem?_getD, List.getElem?_eq_getElem hi, Option.getD_some,
    List.mem_eraseIdx_iff_getElem]
  rintro ⟨j, hj, hne, heq⟩
  exact hne ((hl.getElem_inj_iff).mp heq)

/-- Searches that erase exactly the entries with `mine` have all hit. -/
theorem scansHit_of_filter {pp : Nat → Int} {mine : Nat → Bool} {n : Nat} {l : List Nat}
    (hl : l.Nodup) (hlen : (l.filter mine).length = n)
    (h : (eraseScanned · pp)^[n] l = l.filter (!mine ·)) : scansHit pp mine n l = true := by
  induction n generalizing l with
  | zero => rfl
  | succ n ih =>
    rw [scansHit]
    cases hscan : scanFIFO l pp with
    | none =>
      -- every further search finds nothing either
      have hfix : eraseScanned l pp = l := by simp [eraseScanned, hscan]
      have hstay : (eraseScanned · pp)^[n + 1] l = l := Function.iterate_fixed hfix _
      rw [hstay] at h
      have hnone : l.filter mine = [] := by
        rw [List.filter_eq_nil_iff]
        intro a ha
        rw [h] at ha
        simpa using (List.mem_filter.mp ha).2
      rw [hnone] at hlen
      cases hlen
    | some ii =>
      have hlt := scanFIFO_lt hscan
      have herase : eraseScanned l pp = l.eraseIdx ii := by simp [eraseScanned, hscan]
      rw [Function.iterate_succ_apply, herase] at h
      have hmine : mine (l.getD ii 0) = true := by
        by_contra hnot
        have hin : l.getD ii 0 ∈ l.filter (!mine ·) := by
          rw [List.getD_eq_getElem?_getD, List.getElem?_eq_getElem hlt, Option.getD_some] at hnot ⊢
          exact List.mem_filter.mpr ⟨List.getElem_mem hlt, by simpa using hnot⟩
        rw [← h] at hin
        exact getD_notMem_eraseIdx hl hlt ((iterate_eraseScanned_sublist pp n _).subset hin)
      obtain ⟨hkeep, hcount⟩ := filter_eraseIdx hlt hmine
      simp only [hmine, Bool.true_and]
      exact ih (hl.sublist (List.eraseIdx_sublist _ _)) (by omega) (h.trans hkeep.symm)

/-- **The destructor keeps the queue exact if and only if all its searches hit.** -/
theorem deleteSpace_queue_iff {k : Kernel} (h : QueueInv k) (hf : FrameInv none k) (s : Nat)
    (junk : Nat → Int) : QueueInv (deleteSpace k s junk) ↔ ScansHit k s junk := by
  refine ⟨fun hq => ?_, h.deleted hf⟩
  obtain ⟨-, hvalid⟩ := deleteLoop_frames hf s junk
  have ht := tlbOnly_saveState (deleteLoop k s junk (k.numPages s))
  have hlist : (deleteSpace k s junk).FIFOList = (deleteLoop k s junk (k.numPages s)).FIFOList :=
    ht.FIFOList
  have hmem : ∀ f, f ∈ (deleteLoop k s junk (k.numPages s)).FIFOList ↔
      f ∈ k.FIFOList.filter (!ownedBy k s ·) := by
    intro f
    have hv : ((deleteSpace k s junk).IPT f).valid =
        ((deleteLoop k s junk (k.numPages s)).IPT f).valid := ht.valid f
    rw [← hlist, hq.mem f, hv, List.mem_filter, h.mem f]
    constructor
    · rintro ⟨hlt, hval⟩
      obtain ⟨hold, hPID⟩ := (hvalid f hlt).mp hval
      exact ⟨⟨hlt, hold⟩, by simp [ownedBy, hPID]⟩
    · rintro ⟨⟨hlt, hold⟩, hnot⟩
      refine ⟨hlt, (hvalid f hlt).mpr ⟨hold, ?_⟩⟩
      simpa [ownedBy, hold] using hnot
  have hqueue := deleteLoop_queue k s junk le_rfl
  refine scansHit_of_filter h.nodup (h.owned_length hf s) ?_
  rw [← hqueue]
  have hperm : (deleteLoop k s junk (k.numPages s)).FIFOList.Perm
      (k.FIFOList.filter (!ownedBy k s ·)) :=
    (List.perm_ext_iff_of_nodup (hlist ▸ hq.nodup) (h.nodup.filter _)).mpr hmem
  refine List.Sublist.eq_of_length ?_ hperm.length_eq
  have hsub : (deleteLoop k s junk (k.numPages s)).FIFOList.Sublist k.FIFOList := by
    rw [hqueue]
    exact iterate_eraseScanned_sublist _ _ _
  have hall : (deleteLoop k s junk (k.numPages s)).FIFOList.filter (!ownedBy k s ·) =
      (deleteLoop k s junk (k.numPages s)).FIFOList :=
    List.filter_eq_self.mpr fun f hmem' => (List.mem_filter.mp ((hmem f).mp hmem')).2
  rw [← hall]
  exact hsub.filter _

/-! ## Runs -/

/-- A deletion finds the frames of its space in the queue. -/
def DeletionsHit (k : Kernel) : Op → Prop
  | .delete junk => (k.running.all fun (_, s, _) => decide (ScansHit k s junk)) = true
  | _ => True

instance (k : Kernel) : (op : Op) → Decidable (DeletionsHit k op)
  | .delete _ => inferInstanceAs (Decidable (_ = _))
  | .load _ _ | .store _ _ _ | .run _ | .newThread _ | .create _ | .fork _ | .exit => .isTrue trivial

namespace QueueInv

variable {k k' : Kernel}

theorem init (useFIFO : Bool) : QueueInv (Kernel.init useFIFO) :=
  ⟨fun f => by simp [Kernel.init], .nil, fun f hf => by simp [Kernel.init] at hf⟩

theorem stepSpec {op : Op} {event : Event} (h : QueueInv k) (hs : Sound k)
    (hdel : DeletionsHit k op) (hstep : StepSpec k op k' event) : QueueInv k' := by
  cases hstep with
  | loadHit hrun htr => exact h.tlbOnly (tlbOnly_translate htr)
  | storeHit hrun htr =>
    exact (h.tlbOnly (tlbOnly_translate htr)).congr rfl (fun _ => rfl) rfl rfl
  | miss hop hrun hmiss hfault => exact h.missed hs hfault
  | run hthread =>
    unfold schedulerRun
    split
    · exact (h.tlbOnly (tlbOnly_saveState k)).congr rfl (fun _ => rfl) rfl rfl
    · exact h.congr rfl (fun _ => rfl) rfl rfl
  | newThread space hspace => exact h.congr rfl (fun _ => rfl) rfl rfl
  | create hcur hthread exe => exact h.congr rfl (fun _ => rfl) rfl rfl
  | fork hrun hfresh junk => exact h.congr rfl (fun _ => rfl) rfl rfl
  | exit hrun hpages =>
    exact (h.exited (hs.stackPages (running_some hrun).2.2.1 hpages)).congr rfl (fun _ => rfl)
      rfl rfl
  | delete hrun junk =>
    have hscan := of_decide_eq_true (by simpa [DeletionsHit, hrun] using hdel)
    exact (h.deleted hs.frames hscan).congr rfl (fun _ => rfl) rfl rfl

theorem step {op : Op} (h : QueueInv k) (hs : Sound k)
    (hstep : Lib.Restrict Step DeletionsHit k op k') : QueueInv k' := by
  obtain ⟨⟨hen, event, hnext⟩, hdel⟩ := hstep
  exact h.stepSpec hs hdel (next_spec hen hnext)

/-- The head of the queue is the frame whose page has been in memory longest. -/
theorem victim (h : QueueInv k) (hfifo : k.USEFIFO = true) {r ppn : Nat}
    (hv : chooseVictim k r = .ok ppn) :
    (k.IPT ppn).valid = true ∧ ∀ f < NumPhysPages, (k.IPT f).valid = true → f ≠ ppn →
      k.loadedAt ppn < k.loadedAt f := by
  simp only [chooseVictim, hfifo, if_true] at hv
  have hsorted := h.sorted
  cases hq : k.FIFOList with
  | nil => simp [hq] at hv
  | cons p rest =>
    simp only [hq] at hv
    cases hv
    rw [hq, List.pairwise_cons] at hsorted
    refine ⟨((h.mem ppn).mp (by rw [hq]; exact List.mem_cons_self)).2, fun f hf hval hne => ?_⟩
    have hmem := (h.mem f).mpr ⟨hf, hval⟩
    rw [hq, List.mem_cons] at hmem
    exact hsorted.1 f (hmem.resolve_left hne)

end QueueInv

/-- **Eviction queue accuracy.** In every state of a run whose deletions find the frames of
their space, the queue has no duplicates and holds exactly the frames in use, by age; so the
FIFO victim is the frame whose page has been in memory longest. -/
theorem eviction_queue_accuracy {useFIFO : Bool} {k : Kernel}
    (h : Lib.Reachable (Lib.Restrict Step DeletionsHit) (Kernel.init useFIFO) k) :
    k.FIFOList.Nodup ∧
    (∀ f, f ∈ k.FIFOList ↔ f < NumPhysPages ∧ (k.IPT f).valid = true) ∧
    (k.FIFOList.Pairwise fun f g => k.loadedAt f < k.loadedAt g) ∧
    (k.USEFIFO = true → ∀ r ppn, chooseVictim k r = .ok ppn →
      (k.IPT ppn).valid = true ∧ ∀ f < NumPhysPages, (k.IPT f).valid = true → f ≠ ppn →
        k.loadedAt ppn < k.loadedAt f) := by
  have hinv : Sound k ∧ QueueInv k :=
    h.invariant (I := fun k => Sound k ∧ QueueInv k) ⟨Sound.init useFIFO, QueueInv.init useFIFO⟩
      fun _ _ _ hk hstep => ⟨hk.1.step hstep.1, hk.2.step hk.1 hstep⟩
  exact ⟨hinv.2.nodup, hinv.2.mem, hinv.2.sorted, fun hfifo r ppn => hinv.2.victim hfifo⟩

set_option maxRecDepth 100000 in
/-- A space whose page 0 is in memory goes, and another one takes its place. -/
theorem eviction_queue_accuracy_reuse :
    ∃ k, Lib.Reachable (Lib.Restrict Step DeletionsHit) (Kernel.init true) k ∧
      k.FIFOList = [0] ∧ (k.IPT 0).PID = 1 ∧ k.FIFOList.Nodup := by
  have hrun : (Lib.execute (Lib.guarded step? DeletionsHit) (Kernel.init true)
      [.newThread false, .create (.blank (4 * PageSize)), .load 0 0, .delete fun _ => 0, .run 1,
        .create (.blank (4 * PageSize)), .load (3 * PageSize) 0]).any
      (fun k => decide (k.FIFOList = [0] ∧ (k.IPT 0).PID = 1)) = true := by
    decide +kernel
  obtain ⟨k, hk, hp⟩ := (Option.any_eq_true _ _).mp hrun
  have hreach := Lib.reachable_of_guarded (fun _ _ _ => step_of_step?) hk
  obtain ⟨hq, hpid⟩ := of_decide_eq_true hp
  exact ⟨k, hreach, hq, hpid, (eviction_queue_accuracy hreach).1⟩

set_option maxRecDepth 100000 in
/-- A space whose page 3 is in memory goes; its frame stays in the queue. -/
theorem deletion_leaves_stale_frame :
    ∃ k, Lib.Reachable Step (Kernel.init true) k ∧
      ¬ (∀ f, f ∈ k.FIFOList ↔ f < NumPhysPages ∧ (k.IPT f).valid = true) := by
  have hrun : (Lib.execute step? (Kernel.init true)
      [.create (.blank (4 * PageSize)), .load (3 * PageSize) 0, .delete fun _ => 0]).any
      (fun k => decide (k.FIFOList = [0] ∧ (k.IPT 0).valid = false)) = true := by
    decide +kernel
  obtain ⟨k, hk, hp⟩ := (Option.any_eq_true _ _).mp hrun
  obtain ⟨hq, hvalid⟩ := of_decide_eq_true hp
  refine ⟨k, ⟨_, Lib.path_of_execute (fun _ _ _ => step_of_step?) hk⟩, fun h => ?_⟩
  have := ((h 0).mp (by simp [hq])).2
  rw [hvalid] at this
  cases this

end Nachos.VM

import Nachos.VM.Copy

/-!
# Wild addresses

The page number of an access comes from a register and reaches `handleIPTmiss` unchecked:
`Machine::Translate` compares it with the size of the page table only when there is no TLB,
and `AddrSpace::getPageTableEntry`, which asserts the bound, is not called. A page number
below `numPages` is safe, and so is the second one the fault uses, the victim's in the table
of another process (`FrameInv.entry`). Any other page number takes a frame, often from
another page, and is then used as an index.
-/

namespace Nachos.VM

/-! ## An access of one, two or four bytes -/

/-- The alignment check of `Machine::Translate`. -/
def Misaligned (virtAddr size : Nat) : Prop :=
  (size = 4 ∧ virtAddr % 4 ≠ 0) ∨ (size = 2 ∧ virtAddr % 2 ≠ 0)

instance (virtAddr size : Nat) : Decidable (Misaligned virtAddr size) :=
  inferInstanceAs (Decidable (_ ∨ _))

/-- `ReadMem` and `WriteMem` without the bytes they move: `Translate`, and `RaiseException`
for what it raises. `ExceptionHandler` does not know `AddressErrorException`. -/
def access (k : Kernel) (s virtAddr size : Nat) (writing : Bool) (r : Nat) : Except Stop Kernel :=
  if Misaligned virtAddr size then .error .unexpectedException
  else
    match translate k virtAddr writing with
    | .ok (k, _) => .ok k
    | .error which => raiseException k which s virtAddr r

/-- The page whose entry `handleMemoryFull` writes, if `handleIPTmiss` calls it. -/
def victimPage (k : Kernel) (r : Nat) : List (Nat × Nat) :=
  match k.pageTableBitMap.find with
  | (some _, _) => []
  | (none, _) =>
    match chooseVictim k r with
    | .ok ppn => [((k.IPT ppn).PID, (k.IPT ppn).virtualPage)]
    | .error _ => []

/-- The page-table entries that are indexed while the access is handled, each with its
space: the victim's, and that of the page itself unless the machine stops before it. -/
def indexedPages (k : Kernel) (s virtAddr size r : Nat) : List (Nat × Nat) :=
  if Misaligned virtAddr size ∨ InTLB k virtAddr ∨
      (lookupIPT k s (virtAddr / PageSize)).isSome = true then []
  else victimPage k r ++
    match findFrame k r with
    | .ok _ => [(s, virtAddr / PageSize)]
    | .error _ => []

/-- The tables and memories that paging works on are the same. -/
structure SameMemory (k k' : Kernel) : Prop where
  IPT : k'.IPT = k.IPT
  tlb : k'.tlb = k.tlb
  pageTableBitMap : k'.pageTableBitMap = k.pageTableBitMap
  swapBitMap : k'.swapBitMap = k.swapBitMap
  FIFOList : k'.FIFOList = k.FIFOList
  mainMemory : k'.mainMemory = k.mainMemory
  swapFile : k'.swapFile = k.swapFile
  page : k'.page = k.page

/-- An access is contained: all the page-table entries it indexes exist, and when its own
page does not, nothing has changed when it is over. An exception that stops the machine
before the fault handler runs has changed nothing. -/
def Contained (k : Kernel) (s virtAddr size : Nat) (writing : Bool) (r : Nat) : Prop :=
  (∀ page ∈ indexedPages k s virtAddr size r, k.HasPage page.1 page.2) ∧
  access k s virtAddr size writing r ≠ .error .wildPage ∧
  (¬ k.HasPage s (virtAddr / PageSize) →
    access k s virtAddr size writing r = .error .unexpectedException ∨
    ∃ k', access k s virtAddr size writing r = .ok k' ∧ SameMemory k k')

/-! ## Inside the page table -/

/-- The victim's page exists. -/
theorem FrameInv.victimPage {k : Kernel} (h : FrameInv none k) {r : Nat} {page : Nat × Nat}
    (hp : page ∈ VM.victimPage k r) : k.HasPage page.1 page.2 := by
  unfold VM.victimPage at hp
  cases hfind : k.pageTableBitMap.find with
  | mk o m =>
    cases o with
    | some ppn => simp [hfind] at hp
    | none =>
      have hfull := (BitMap.find_none hfind).1
      rw [h.numBits] at hfull
      obtain ⟨ppn, hchoose, hlt, hv⟩ := h.victim hfull r
      simp only [hfind, hchoose, List.mem_singleton] at hp
      subst hp
      exact (h.entry ppn hlt hv).1

/-- A fault on a page of the running space does not run past its page table. -/
theorem handleTLBMiss_inRange {k : Kernel} (h : Sound k) {s VA : Nat}
    (hp : k.HasPage s (VA / PageSize)) (r : Nat) : handleTLBMiss k s VA r ≠ .error .wildPage := by
  unfold handleTLBMiss residentFrame
  cases hl : lookupIPT k s (VA / PageSize) with
  | some ppn => simp
  | none =>
    simp only [handleIPTmiss]
    cases hf : findFrame k r with
    | error stop => simp [h.frames.findFrame_error hf]
    | ok res =>
      obtain ⟨k₁, ppn⟩ := res
      have hp₁ := ((h.frames.findFrame_sameLayout hf).hasPage s _).mpr hp
      cases hs : k₁.spaces s with
      | none => simp [Kernel.HasPage, Kernel.numPages, hs] at hp₁
      | some sp =>
        simp only [Kernel.HasPage, Kernel.numPages, hs] at hp₁
        simp only [hs, if_pos hp₁]
        cases hload : loadPage k₁ sp (VA / PageSize) ppn with
        | ok k₂ => simp
        | error stop =>
          -- only a negative file position is refused
          unfold loadPage readPageFromExecutable at hload
          split at hload
          · split at hload
            · cases hload
              simp
            · cases hload
          · cases hload
          · cases hload
          · cases hload

/-! ## Outside it -/

/-- A page that the space does not have is neither in the TLB nor in the IPT, so the fault
takes a frame for it, unless swap is full. -/
theorem wild_fault {k : Kernel} {tid s virtAddr : Nat} {sp : AddrSpace} (h : Ready k)
    (hrun : k.running = some (tid, s, sp)) (hwild : ¬ k.HasPage s (virtAddr / PageSize)) (r : Nat) :
    ¬ InTLB k virtAddr ∧ lookupIPT k s (virtAddr / PageSize) = none ∧
      handleTLBMiss k s virtAddr r =
        .error (if (findFrame k r).toOption.isSome then .wildPage else .swapFull) := by
  have hmiss : ¬ InTLB k virtAddr :=
    fun hin => hwild (h.translate_hit hrun hin false).1.1
  have hlookup : lookupIPT k s (virtAddr / PageSize) = none := by
    cases hl : lookupIPT k s (virtAddr / PageSize) with
    | none => rfl
    | some ppn =>
      obtain ⟨hlt, hv, hs, hvp⟩ := lookupIPT_some hl
      have hent := (h.sound.frames.entry ppn hlt hv).1
      rw [hs, hvp] at hent
      exact absurd hent hwild
  refine ⟨hmiss, hlookup, ?_⟩
  unfold handleTLBMiss residentFrame handleIPTmiss
  simp only [hlookup]
  cases hf : findFrame k r with
  | error stop => simp [h.sound.frames.findFrame_error hf, Except.toOption]
  | ok res =>
    obtain ⟨k₁, ppn⟩ := res
    have hwild₁ : ¬ k₁.HasPage s (virtAddr / PageSize) := by
      rw [(h.sound.frames.findFrame_sameLayout hf).hasPage]
      exact hwild
    cases hs : k₁.spaces s with
    | none => simp [Except.toOption, hs]
    | some sp' =>
      simp only [Kernel.HasPage, Kernel.numPages, hs] at hwild₁
      simp [Except.toOption, hs, hwild₁]

/-- **Wild addresses.** In every reachable state an access of the running thread, at any
address and of any size, is contained exactly when its page number is below `numPages` or
the address is misaligned, so that no fault is handled at all. -/
theorem access_contained_iff {useFIFO : Bool} {k : Kernel}
    (h : Lib.Reachable Step (Kernel.init useFIFO) k) {tid s : Nat} {sp : AddrSpace}
    (hrun : k.running = some (tid, s, sp)) (virtAddr size : Nat) (writing : Bool) (r : Nat) :
    Contained k s virtAddr size writing r ↔
      virtAddr / PageSize < k.numPages s ∨ Misaligned virtAddr size := by
  have hready := ready_of_reachable h
  by_cases hmis : Misaligned virtAddr size
  · -- `Translate` raises before it looks at anything
    have hacc : access k s virtAddr size writing r = .error .unexpectedException := if_pos hmis
    refine ⟨fun _ => .inr hmis, fun _ => ⟨?_, ?_, fun _ => .inl hacc⟩⟩
    · intro page hp
      simp [indexedPages, hmis] at hp
    · rw [hacc]
      simp
  · by_cases hp : k.HasPage s (virtAddr / PageSize)
    · refine ⟨fun _ => .inl hp, fun _ => ⟨?_, ?_, fun hwild => absurd hp hwild⟩⟩
      · intro page hpage
        unfold indexedPages at hpage
        split at hpage
        · cases hpage
        · rcases List.mem_append.mp hpage with hvictim | hown
          · exact hready.sound.frames.victimPage hvictim
          · split at hown
            · rw [List.mem_singleton.mp hown]
              exact hp
            · cases hown
      · unfold access
        rw [if_neg hmis]
        cases htr : translate k virtAddr writing with
        | ok res => simp
        | error which =>
          cases which with
          | PageFaultException => exact handleTLBMiss_inRange hready.sound hp r
          | ReadOnlyException => simp [raiseException]
          | BusErrorException => simp [raiseException]
    · obtain ⟨hmiss, hlookup, hfault⟩ := wild_fault hready hrun hp r
      have hnone : tlbEntryOfPage k (virtAddr / PageSize) = none := by simpa [InTLB] using hmiss
      have hacc : access k s virtAddr size writing r =
          .error (if (findFrame k r).toOption.isSome then .wildPage else .swapFull) := by
        rw [access, if_neg hmis, translate, hnone]
        exact hfault
      refine ⟨fun hcont => absurd hcont ?_, fun hor => absurd hor ?_⟩
      · rintro ⟨-, hnowild, hsame⟩
        rw [hacc] at hnowild hsame
        rcases hsame hp with heq | ⟨k', heq, -⟩
        · split at heq <;> cases heq
        · cases heq
      · rintro (hlt | hmis')
        · exact hp hlt
        · exact hmis hmis'

/-- A process of nine pages, running. -/
theorem access_contained_last_page : ∃ k tid sp, Lib.Reachable Step (Kernel.init true) k ∧
    k.running = some (tid, 0, sp) ∧ Contained k 0 (8 * PageSize) 4 false 0 := by
  have hexec : (Lib.execute step? (Kernel.init true) [.create (.blank PageSize)]).any
      (fun k => decide (k.running.map (fun c => (c.1, c.2.1)) = some (0, 0) ∧
        k.numPages 0 = 9)) = true := by
    decide +kernel
  obtain ⟨k, hk, hp⟩ := (Option.any_eq_true _ _).mp hexec
  obtain ⟨hrun, hnum⟩ := of_decide_eq_true hp
  obtain ⟨⟨tid, s, sp⟩, hrun, heq⟩ := Option.map_eq_some_iff.mp hrun
  cases heq
  have hreach : Lib.Reachable Step (Kernel.init true) k :=
    ⟨_, Lib.path_of_execute (fun _ _ _ => step_of_step?) hk⟩
  refine ⟨k, 0, sp, hreach, hrun, (access_contained_iff hreach hrun _ 4 false 0).mpr (.inl ?_)⟩
  rw [hnum]
  decide

/-- The same process loads the word at the first address past its pages: its page table of
nine entries is indexed with 9. -/
theorem wild_load_not_contained : ∃ k tid sp, Lib.Reachable Step (Kernel.init true) k ∧
    k.running = some (tid, 0, sp) ∧ k.numPages 0 = 9 ∧
    access k 0 (9 * PageSize) 4 false 0 = .error .wildPage ∧
    ¬ Contained k 0 (9 * PageSize) 4 false 0 := by
  have hexec : (Lib.execute step? (Kernel.init true) [.create (.blank PageSize)]).any
      (fun k => decide (k.running.map (fun c => (c.1, c.2.1)) = some (0, 0) ∧
        k.numPages 0 = 9) && match access k 0 (9 * PageSize) 4 false 0 with
          | .error .wildPage => true
          | _ => false) = true := by
    decide +kernel
  obtain ⟨k, hk, hp⟩ := (Option.any_eq_true _ _).mp hexec
  obtain ⟨hstate, hacc⟩ := Bool.and_eq_true_iff.mp hp
  obtain ⟨hrun, hnum⟩ := of_decide_eq_true hstate
  obtain ⟨⟨tid, s, sp⟩, hrun, heq⟩ := Option.map_eq_some_iff.mp hrun
  cases heq
  have hwild : access k 0 (9 * PageSize) 4 false 0 = .error .wildPage := by
    split at hacc
    · assumption
    · cases hacc
  refine ⟨k, 0, sp, ⟨_, Lib.path_of_execute (fun _ _ _ => step_of_step?) hk⟩, hrun, hnum, hwild, ?_⟩
  exact fun hcont => hcont.2.1 hwild

end Nachos.VM

import Nachos.VM.Fault

/-!
# Address spaces: creation, `Fork`, `Exit`, deletion

The operations of `userprog/addrspace.cc` on one space. They run on the thread that calls
them, with interrupts off, so each is one step of the machine.

The destructor searches the eviction queue for `pageTable[ii].physicalPage` where `ii` is
the position in the queue, not the page it is freeing; a position past the end of the page
table reads whatever lies there (`junk`). `Fork` leaves the `byteOffset` of the new pages
as the allocator left it (`junk`).
-/

namespace Nachos.VM

/-- `divRoundUp(UserStackSize, PageSize)`. -/
def stackPageCount : Nat := divRoundUp UserStackSize PageSize

/-- `AddrSpace::AddrSpace`, run by the thread `tid`: the pages of the program are in the
executable, the pages of the first stack are nowhere. -/
def AddrSpace.new (exe : Executable) (tid : Nat) : AddrSpace :=
  let numNonStackPages := divRoundUp exe.size PageSize
  let numPages := numNonStackPages + stackPageCount
  { pageTable := fun i =>
      { virtualPage := i
        location := if i < numNonStackPages then .EXEC else .VOID
        byteOffset := if i < numNonStackPages then exe.code.inFileAddr + i * PageSize else -1 }
    numPages := numPages
    numNonStackPages := numNonStackPages
    executable := exe.contents
    threadTable := Function.update (fun _ => none) tid
      (some (List.range' numNonStackPages stackPageCount)) }

/-- `AddrSpace::Fork`, run by the new thread `tid`: eight more pages, for its stack. -/
def AddrSpace.fork (sp : AddrSpace) (tid : Nat) (junk : Nat → Int) : AddrSpace :=
  let newNumPages := sp.numPages + stackPageCount
  { sp with
    pageTable := fun i =>
      if i < sp.numPages then sp.pageTable i
      else { virtualPage := i, location := .VOID, byteOffset := junk i }
    numPages := newNumPages
    threadTable := Function.update sp.threadTable tid
      (some (List.range' sp.numPages stackPageCount)) }

/-- Put a changed space back. -/
def Kernel.setSpace (k : Kernel) (s : Nat) (sp : AddrSpace) : Kernel :=
  { k with spaces := Function.update k.spaces s (some sp) }

/-! ## Giving pages back -/

/-- `swapBitMap->Clear(byteOffset / PageSize)`. -/
def clearSwapSlot (k : Kernel) (byteOffset : Int) : Kernel :=
  { k with swapBitMap := k.swapBitMap.clear (byteOffset / PageSize).toNat }

/-- `pageTableBitMap->Clear(ppn)` and `IPT[ppn].valid = FALSE`. -/
def freeFrame (k : Kernel) (ppn : Nat) : Kernel :=
  { k with pageTableBitMap := k.pageTableBitMap.clear ppn }.modIPT ppn ({ · with valid := false })

/-- One turn of the loop of `AddrSpace::Exit`, for the stack page `vpn`. -/
def exitPage (s : Nat) (k : Kernel) (vpn : Nat) : Kernel :=
  let p := k.page s vpn
  let k :=
    if p.valid then
      match p.location with
      | .MAIN => removePageFromFIFOQ (freeFrame k p.physicalPage.toNat) p.physicalPage.toNat
      | .SWAP => clearSwapSlot k p.byteOffset
      | .VOID => k
      | .EXEC => k
    else k
  k.modPage s vpn ({ · with valid := false, physicalPage := -1 })

/-- The loop of `AddrSpace::Exit` over the first eight of `stackPages`, with
`stackPagesCleared`. It ends early where the source would read past them. -/
def exitLoop (k : Kernel) (s : Nat) (stackPages : List Nat) : Kernel × Nat :=
  (stackPages.take 8).foldl
    (fun (k, stackPagesCleared) vpn => (exitPage s k vpn, stackPagesCleared + 1)) (k, 0)

/-- `AddrSpace::Exit` for the thread whose `stackPages` are given. -/
def exitStack (k : Kernel) (s : Nat) (stackPages : List Nat) : Except Stop Kernel :=
  let (k, stackPagesCleared) := exitLoop k s stackPages
  if stackPagesCleared = UserStackSize / PageSize then .ok (saveState k)
  else .error .assertFailed

/-- The kernel that `AddrSpace::Exit` leaves when its assertion holds. -/
def clearStack (k : Kernel) (s : Nat) (stackPages : List Nat) : Kernel :=
  saveState ((stackPages.take 8).foldl (exitPage s) k)

/-- The loop clears and counts. -/
theorem exitLoop_eq (k : Kernel) (s : Nat) (stackPages : List Nat) :
    exitLoop k s stackPages =
      ((stackPages.take 8).foldl (exitPage s) k, (stackPages.take 8).length) := by
  have hcount : ∀ (pages : List Nat) (k : Kernel) (n : Nat),
      pages.foldl (fun (k, stackPagesCleared) vpn => (exitPage s k vpn, stackPagesCleared + 1))
        (k, n) = (pages.foldl (exitPage s) k, n + pages.length) := by
    intro pages
    induction pages with
    | nil => intro k n; rfl
    | cons v rest ih =>
      intro k n
      rw [List.foldl_cons, List.foldl_cons, ih, List.length_cons, Nat.add_assoc, Nat.add_comm 1]
  rw [exitLoop, hcount, Nat.zero_add]

/-- `AddrSpace::Exit` returns when the thread has the pages of a stack. -/
theorem exitStack_iff {k k' : Kernel} {s : Nat} {stackPages : List Nat} :
    exitStack k s stackPages = .ok k' ↔
      stackPageCount ≤ stackPages.length ∧ k' = clearStack k s stackPages := by
  have hcount : (stackPages.take 8).length = UserStackSize / PageSize ↔
      stackPageCount ≤ stackPages.length := by
    rw [List.length_take]
    show min 8 stackPages.length = 8 ↔ 8 ≤ stackPages.length
    omega
  simp only [exitStack, exitLoop_eq, hcount, clearStack]
  split
  · rename_i hle
    exact ⟨fun h => ⟨hle, (Except.ok.inj h).symm⟩, fun h => by rw [h.2]⟩
  · rename_i hlt
    exact ⟨fun h => (by cases h), fun h => absurd h.1 hlt⟩

/-- The position the destructor's search of the eviction queue stops at:
the first `ii` with `FIFOList[ii] == pageTable[ii].physicalPage`. -/
def scanFIFO (FIFOList : List Nat) (physicalPage : Nat → Int) : Option Nat :=
  (List.range FIFOList.length).find? fun ii =>
    decide (((FIFOList.getD ii 0 : Nat) : Int) = physicalPage ii)

/-- The destructor's removal from the eviction queue. -/
def eraseScanned (FIFOList : List Nat) (physicalPage : Nat → Int) : List Nat :=
  match scanFIFO FIFOList physicalPage with
  | some ii => FIFOList.eraseIdx ii
  | none => FIFOList

/-- `pageTable[ii].physicalPage`, past the end of the table too. -/
def Kernel.physicalPageAt (k : Kernel) (s : Nat) (junk : Nat → Int) (ii : Nat) : Int :=
  if ii < k.numPages s then (k.page s ii).physicalPage else junk ii

/-- One turn of the loop of `AddrSpace::~AddrSpace`, for the page `i`. -/
def deletePage (s : Nat) (junk : Nat → Int) (k : Kernel) (i : Nat) : Kernel :=
  let p := k.page s i
  if p.valid then
    let k :=
      match p.location with
      | .MAIN =>
        freeFrame { k with FIFOList := eraseScanned k.FIFOList (k.physicalPageAt s junk) }
          p.physicalPage.toNat
      | .SWAP => clearSwapSlot k p.byteOffset
      | .VOID => k
      | .EXEC => k
    k.modPage s i ({ · with valid := false })
  else k

/-- `AddrSpace::~AddrSpace`. -/
def deleteSpace (k : Kernel) (s : Nat) (junk : Nat → Int) : Kernel :=
  let k := saveState ((List.range (k.numPages s)).foldl (deletePage s junk) k)
  { k with spaces := Function.update k.spaces s none }

end Nachos.VM

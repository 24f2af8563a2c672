import Nachos.VM.Basic

/-!
# Translation, TLB misses and page replacement

`Machine::Translate` with `ReadMem` and `WriteMem` for one byte (`machine/translate.cc`),
and the page-fault path of `userprog/exception.cc`:
`handleTLBMiss → handleIPTmiss → handleMemoryFull → populateTLBFromIPTEntry`.

Each function is the source's, read top to bottom. Where the source stops the machine the
result is an error (`Stop`); `r` is the value of `rand()` for the RAND policy.
-/

namespace Nachos.VM

/-! ## Swap and executable transfers -/

/-- `writePageToSwap`: take a free slot, write the frame there, return its byte offset.
A frame that is not both valid and dirty is not written and the offset is `-1`. -/
def writePageToSwap (k : Kernel) (ppn : Nat) : Except Stop (Kernel × Int) :=
  if (k.IPT ppn).valid && (k.IPT ppn).dirty then
    match k.swapBitMap.find with
    | (none, _) => .error .swapFull
    | (some swapIndex, m) =>
      let byteOffset := swapIndex * PageSize
      .ok ({ k with
              swapBitMap := m
              swapFile := blit k.swapFile byteOffset PageSize
                (fun j => k.mainMemory (PageSize * ppn + j)) }, byteOffset)
  else .ok (k, -1)

/-- `readPageFromSwapToPPN`: give the slot back and read it into the frame. -/
def readPageFromSwapToPPN (k : Kernel) (byteOffset : Int) (ppn : Nat) : Kernel :=
  let swapIndex := (byteOffset / PageSize).toNat
  { k with
    swapBitMap := k.swapBitMap.clear swapIndex
    mainMemory := blit k.mainMemory (PageSize * ppn) PageSize
      (fun j => k.swapFile (byteOffset.toNat + j)) }

/-- `executable->ReadAt(&mainMemory[PageSize * ppn], PageSize, position)`: the bytes past
the end of the file are left as they are. -/
def readPageFromExecutable (k : Kernel) (file : List UInt8) (position : Int) (ppn : Nat) :
    Except Stop Kernel :=
  if position < 0 then .error .badSeek
  else .ok { k with
    mainMemory := blit k.mainMemory (PageSize * ppn) PageSize
      (fun j => (file[position.toNat + j]?).getD (k.mainMemory (PageSize * ppn + j))) }

/-! ## The TLB -/

/-- `propogateCurTLBDirty`. -/
def propogateCurTLBDirty (k : Kernel) (tlbIndex : Nat) : Kernel :=
  if (k.tlb tlbIndex).valid && (k.tlb tlbIndex).dirty then
    k.modIPT (k.tlb tlbIndex).physicalPage.toNat ({ · with dirty := true })
  else k

/-- `populateTLBFromIPTEntry`. -/
def populateTLBFromIPTEntry (k : Kernel) (ppn : Nat) : Kernel :=
  let k := propogateCurTLBDirty k k.currentTLB
  { k.modTLB k.currentTLB (fun _ => (k.IPT ppn).toTranslationEntry) with
    currentTLB := (k.currentTLB + 1) % TLBSize }

/-- The first TLB entry that is valid and holds the frame. -/
def tlbEntryOfFrame (k : Kernel) (ppn : Nat) : Option Nat :=
  (List.range TLBSize).find? fun i =>
    (k.tlb i).valid && decide ((k.tlb i).physicalPage = (ppn : Int))

/-- The loop of `handleMemoryFull` over the TLB: pass on the dirty bit of the entry that
holds the frame and drop the entry. -/
def dropFrameFromTLB (k : Kernel) (ppn : Nat) : Kernel :=
  match tlbEntryOfFrame k ppn with
  | none => k
  | some i =>
    let k := if (k.tlb i).dirty then k.modIPT ppn ({ · with dirty := true }) else k
    k.modTLB i ({ · with valid := false })

/-- One turn of the loop of `AddrSpace::SaveState`. -/
def saveTLBEntry (k : Kernel) (i : Nat) : Kernel :=
  (propogateCurTLBDirty k i).modTLB i ({ · with valid := false })

/-- `AddrSpace::SaveState`: pass on the dirty bits and drop every TLB entry. -/
def saveState (k : Kernel) : Kernel := (List.range TLBSize).foldl saveTLBEntry k

/-! ## Replacement -/

/-- `removePageFromFIFOQ`: drop the first occurrence. -/
def removePageFromFIFOQ (k : Kernel) (ppn : Nat) : Kernel :=
  { k with FIFOList := k.FIFOList.erase ppn }

/-- The victim of `handleMemoryFull`. -/
def chooseVictim (k : Kernel) (r : Nat) : Except Stop Nat :=
  if k.USEFIFO then
    match k.FIFOList with
    | [] => .error .noVictim
    | ppn :: _ => .ok ppn
  else .ok (r % NumPhysPages)

/-- The part of `handleMemoryFull` that records where the victim's page went: a dirty page
goes to swap, and a clean one is said to be in the executable. -/
def recordEviction (k : Kernel) (ppn : Nat) : Except Stop Kernel :=
  let e := k.IPT ppn
  if e.dirty && e.valid then
    match writePageToSwap k ppn with
    | .error stop => .error stop
    | .ok (k, byteOffset) =>
      .ok (k.modPage e.PID e.virtualPage
        ({ · with location := .SWAP, byteOffset := byteOffset, dirty := e.dirty }))
  else .ok (k.modPage e.PID e.virtualPage ({ · with location := .EXEC }))

/-- `handleMemoryFull`. -/
def handleMemoryFull (k : Kernel) (r : Nat) : Except Stop (Kernel × Nat) :=
  match chooseVictim k r with
  | .error stop => .error stop
  | .ok ppn =>
    if ppn < NumPhysPages ∧ (k.IPT ppn).valid then
      match recordEviction (dropFrameFromTLB k ppn) ppn with
      | .error stop => .error stop
      | .ok k => .ok (removePageFromFIFOQ (k.modIPT ppn ({ · with valid := false })) ppn, ppn)
    else .error .assertFailed

/-- The start of `handleIPTmiss`: a frame for the page, free or taken from another page. -/
def findFrame (k : Kernel) (r : Nat) : Except Stop (Kernel × Nat) :=
  match k.pageTableBitMap.find with
  | (some ppn, m) => .ok ({ k with pageTableBitMap := m }, ppn)
  | (none, _) => handleMemoryFull k r

/-- The middle of `handleIPTmiss`: bring the contents of the page into the frame. A page
whose `location` is `VOID`, or already `MAIN`, gets the frame as it is. -/
def loadPage (k : Kernel) (sp : AddrSpace) (vpn ppn : Nat) : Except Stop Kernel :=
  match (sp.pageTable vpn).location with
  | .EXEC => readPageFromExecutable k sp.executable (sp.pageTable vpn).byteOffset ppn
  | .SWAP => .ok (readPageFromSwapToPPN k (sp.pageTable vpn).byteOffset ppn)
  | .VOID => .ok k
  | .MAIN => .ok k

/-- The end of `handleIPTmiss`: enter the page in its page table, in the IPT and at the
back of the eviction queue. -/
def recordLoad (k : Kernel) (s vpn ppn : Nat) : Kernel :=
  let k := k.modPage s vpn ({ · with physicalPage := ppn, valid := true, location := .MAIN })
  let k := k.modIPT ppn (fun _ =>
    { toTranslationEntry := (k.page s vpn).toTranslationEntry, PID := s })
  { k with
    FIFOList := k.FIFOList ++ [ppn]
    loads := k.loads + 1
    loadedAt := Function.update k.loadedAt ppn k.loads }

/-- `handleIPTmiss` for the page `vpn` of the running space `s`. -/
def handleIPTmiss (k : Kernel) (s vpn r : Nat) : Except Stop (Kernel × Nat) :=
  match findFrame k r with
  | .error stop => .error stop
  | .ok (k, ppn) =>
    match k.spaces s with
    | none => .error .wildPage
    | some sp =>
      if vpn < sp.numPages then
        match loadPage k sp vpn ppn with
        | .error stop => .error stop
        | .ok k => .ok (recordLoad k s vpn ppn, ppn)
      else .error .wildPage

/-- The search of `handleTLBMiss` through the IPT. -/
def lookupIPT (k : Kernel) (s VP : Nat) : Option Nat :=
  (List.range NumPhysPages).find? fun i =>
    (k.IPT i).valid && decide ((k.IPT i).PID = s) && decide ((k.IPT i).virtualPage = VP)

/-- The frame of `handleTLBMiss`: found in the IPT, or by `handleIPTmiss`. -/
def residentFrame (k : Kernel) (s VP r : Nat) : Except Stop (Kernel × Nat) :=
  match lookupIPT k s VP with
  | some ppn => .ok (k, ppn)
  | none => handleIPTmiss k s VP r

/-- `handleTLBMiss`. -/
def handleTLBMiss (k : Kernel) (s VA r : Nat) : Except Stop Kernel :=
  match residentFrame k s (VA / PageSize) r with
  | .error stop => .error stop
  | .ok (k, ppn) => .ok (populateTLBFromIPTEntry k ppn)

/-! ## `Machine::Translate`, `ReadMem` and `WriteMem` for one byte -/

/-- The exceptions `Translate` can raise for a one-byte access. -/
inductive ExceptionType where
  | PageFaultException
  | ReadOnlyException
  | BusErrorException
  deriving DecidableEq, Repr

/-- The TLB entry `Translate` uses. -/
def tlbEntryOfPage (k : Kernel) (vpn : Nat) : Option Nat :=
  (List.range TLBSize).find? fun i =>
    (k.tlb i).valid && decide ((k.tlb i).virtualPage = vpn)

/-- `Machine::Translate`: the physical address, with the use and dirty bits set. -/
def translate (k : Kernel) (virtAddr : Nat) (writing : Bool) :
    Except ExceptionType (Kernel × Nat) :=
  match tlbEntryOfPage k (virtAddr / PageSize) with
  | none => .error .PageFaultException
  | some i =>
    let entry := k.tlb i
    if entry.readOnly && writing then .error .ReadOnlyException
    else if 0 ≤ entry.physicalPage ∧ entry.physicalPage < NumPhysPages then
      .ok (k.modTLB i (fun e => { e with use := true, dirty := e.dirty || writing }),
        entry.physicalPage.toNat * PageSize + virtAddr % PageSize)
    else .error .BusErrorException

/-- `RaiseException` for a memory access of the space `s`. -/
def raiseException (k : Kernel) (which : ExceptionType) (s VA r : Nat) : Except Stop Kernel :=
  match which with
  | .PageFaultException => handleTLBMiss k s VA r
  | .ReadOnlyException => .error .unexpectedException
  | .BusErrorException => .error .unexpectedException

/-- `Machine::ReadMem` of one byte: the byte, or `none` when the access faulted and has to
be tried again. -/
def readMem (k : Kernel) (s addr r : Nat) : Except Stop (Kernel × Option UInt8) :=
  match translate k addr false with
  | .ok (k, physicalAddress) => .ok (k, some (k.mainMemory physicalAddress))
  | .error which => (raiseException k which s addr r).map (·, none)

/-- `Machine::WriteMem` of one byte: whether the byte was written. -/
def writeMem (k : Kernel) (s addr : Nat) (value : UInt8) (r : Nat) :
    Except Stop (Kernel × Bool) :=
  match translate k addr true with
  | .ok (k, physicalAddress) =>
    .ok ({ k with mainMemory := Function.update k.mainMemory physicalAddress value }, true)
  | .error which => (raiseException k which s addr r).map (·, false)

end Nachos.VM

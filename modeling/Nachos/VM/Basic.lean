import Nachos.BitMap

/-!
# Demand-paged memory: the kernel's tables

The state the paging code of `userprog/exception.cc` and `userprog/addrspace.cc` reads and
writes: the per-space page tables, the inverted page table `IPT`, the software-loaded TLB,
the frame and swap bitmaps, the eviction queue, main memory and the swap file.

Address spaces are numbered; a number stands for the `AddrSpace*` of the source and is
never used twice. Thread ids are the source's `threadIDCount++`. `physicalPage` and
`byteOffset` are `Int`, since the source uses `-1` for "none".
-/

namespace Nachos.VM

/-! ## Constants (`machine/machine.h`, `threads/system.h`, `userprog/addrspace.h`) -/

def PageSize : Nat := 128

def NumPhysPages : Nat := 32

def TLBSize : Nat := 4

def NumSwapPages : Nat := 512

def UserStackSize : Nat := 1024

/-- `divRoundUp` (`threads/utility.h`). -/
def divRoundUp (n s : Nat) : Nat := n / s + if n % s > 0 then 1 else 0

/-! ## Table entries -/

/-- `enum PAGELOCATION`: where the contents of a page are. -/
inductive PageLocation where
  | VOID
  | EXEC
  | MAIN
  | SWAP
  deriving DecidableEq, Repr, Inhabited

/-- `class TranslationEntry` (`machine/translate.h`), the entries of the TLB. -/
structure TranslationEntry where
  virtualPage : Nat := 0
  physicalPage : Int := -1
  valid : Bool := false
  readOnly : Bool := false
  use : Bool := false
  dirty : Bool := false
  deriving DecidableEq, Repr, Inhabited

/-- `class PageTableEntry`. -/
structure PageTableEntry extends TranslationEntry where
  location : PageLocation := .VOID
  byteOffset : Int := -1
  deriving DecidableEq, Repr, Inhabited

/-- `class IPTEntry`; `PID` is the number of the space. -/
structure IPTEntry extends TranslationEntry where
  PID : Nat := 0
  deriving DecidableEq, Repr, Inhabited

/-- `Segment` (`bin/noff.h`); no number of a header is negative. -/
structure Segment where
  virtualAddr : Nat
  inFileAddr : Nat
  size : Nat
deriving DecidableEq

/-- What the constructor of `AddrSpace` takes from a NOFF file: the segments of its header
(`NoffHeader`), and the bytes of the file. -/
structure Executable where
  code : Segment
  initData : Segment
  uninitData : Segment
  contents : List UInt8
deriving DecidableEq

/-- The `size` of `AddrSpace::AddrSpace`, without the stack. -/
def Executable.size (exe : Executable) : Nat :=
  exe.code.size + exe.initData.size + exe.uninitData.size

/-- A program of so much code, all zeros behind the header of the file, and no data. -/
def Executable.blank (size : Nat) : Executable :=
  ⟨⟨0, 40, size⟩, ⟨size, 40 + size, 0⟩, ⟨size, 40 + size, 0⟩, List.replicate (40 + size) 0⟩

/-- `class AddrSpace`. `threadTable` maps the id of a thread to its `stackPages`. -/
structure AddrSpace where
  pageTable : Nat → PageTableEntry
  numPages : Nat
  numNonStackPages : Nat
  executable : List UInt8
  threadTable : Nat → Option (List Nat)

/-! ## The kernel state -/

/-- The global tables. `loads` and `loadedAt` are auxiliary: they count the pages brought
into memory and record when each frame got its page, and no function of the model reads
them. -/
structure Kernel where
  pageTableBitMap : BitMap
  swapBitMap : BitMap
  IPT : Nat → IPTEntry
  FIFOList : List Nat
  USEFIFO : Bool
  tlb : Nat → TranslationEntry
  currentTLB : Nat
  mainMemory : Nat → UInt8
  swapFile : Nat → UInt8
  spaces : Nat → Option AddrSpace
  spaceCount : Nat
  /-- The unfinished threads, each with its `space`. -/
  threads : Nat → Option (Option Nat)
  threadIDCount : Nat
  currentThread : Option Nat
  loads : Nat
  loadedAt : Nat → Nat

/-- `Initialize` (`threads/system.cc`): empty tables, zeroed memory, and the main thread
without a space. `new IPTEntry[NumPhysPages]` leaves the `valid` bits of the IPT as memory had
them; they are taken to be `FALSE`. -/
def Kernel.init (useFIFO : Bool) : Kernel where
  pageTableBitMap := BitMap.new NumPhysPages
  swapBitMap := BitMap.new NumSwapPages
  IPT := fun _ => {}
  FIFOList := []
  USEFIFO := useFIFO
  tlb := fun _ => {}
  currentTLB := 0
  mainMemory := fun _ => 0
  swapFile := fun _ => 0
  spaces := fun _ => none
  spaceCount := 0
  threads := Function.update (fun _ => none) 0 (some none)
  threadIDCount := 1
  currentThread := some 0
  loads := 0
  loadedAt := fun _ => 0

/-- Ways the run of the machine ends inside the paging code. -/
inductive Stop where
  /-- `writePageToSwap` found no free slot and called `Halt`. -/
  | swapFull
  /-- One of the two assertions of `handleMemoryFull` on its victim failed, or the one that
  `AddrSpace::Exit` ends with. -/
  | assertFailed
  /-- `FIFOList[0]` was read from an empty vector. -/
  | noVictim
  /-- `Lseek` was given a negative offset and its assertion failed. -/
  | badSeek
  /-- A page table was indexed past its end. -/
  | wildPage
  /-- `ExceptionHandler` got an exception that is neither a syscall nor a page fault. -/
  | unexpectedException
  deriving DecidableEq, Repr

/-! ## Access to one entry -/

/-- `space->pageTable[vpn]`. -/
def Kernel.page (k : Kernel) (s vpn : Nat) : PageTableEntry :=
  match k.spaces s with
  | some sp => sp.pageTable vpn
  | none => {}

/-- `numPages` of a live space. -/
def Kernel.numPages (k : Kernel) (s : Nat) : Nat :=
  match k.spaces s with
  | some sp => sp.numPages
  | none => 0

/-- The page exists: its space is live and its number is in range. -/
def Kernel.HasPage (k : Kernel) (s vpn : Nat) : Prop := vpn < k.numPages s

instance (k : Kernel) (s vpn : Nat) : Decidable (k.HasPage s vpn) :=
  inferInstanceAs (Decidable (vpn < k.numPages s))

/-- Write the fields of `space->pageTable[vpn]`. -/
def AddrSpace.modPage (sp : AddrSpace) (vpn : Nat) (f : PageTableEntry → PageTableEntry) :
    AddrSpace :=
  { sp with pageTable := Function.update sp.pageTable vpn (f (sp.pageTable vpn)) }

/-- Write the fields of one page of a space. -/
def Kernel.modPage (k : Kernel) (s vpn : Nat) (f : PageTableEntry → PageTableEntry) : Kernel :=
  { k with spaces := Function.update k.spaces s ((k.spaces s).map (·.modPage vpn f)) }

/-- Write the fields of `IPT[ppn]`. -/
def Kernel.modIPT (k : Kernel) (ppn : Nat) (f : IPTEntry → IPTEntry) : Kernel :=
  { k with IPT := Function.update k.IPT ppn (f (k.IPT ppn)) }

/-- Write the fields of `machine->tlb[i]`. -/
def Kernel.modTLB (k : Kernel) (i : Nat) (f : TranslationEntry → TranslationEntry) : Kernel :=
  { k with tlb := Function.update k.tlb i (f (k.tlb i)) }

/-- `currentThread->space`. -/
def Kernel.currentSpace (k : Kernel) : Option Nat :=
  (k.currentThread.bind k.threads).join

/-- Copy `n` bytes to `base`: what `ReadAt` and `WriteAt` do to the target array. -/
def blit (dst : Nat → UInt8) (base n : Nat) (src : Nat → UInt8) : Nat → UInt8 :=
  fun a => if base ≤ a ∧ a < base + n then src (a - base) else dst a

/-! ## What the writes leave alone -/

theorem modIPT_IPT (k : Kernel) (p q : Nat) (f : IPTEntry → IPTEntry) :
    (k.modIPT p f).IPT q = if q = p then f (k.IPT p) else k.IPT q := by
  simp [Kernel.modIPT, Function.update_apply]

theorem modTLB_tlb (k : Kernel) (i j : Nat) (f : TranslationEntry → TranslationEntry) :
    (k.modTLB i f).tlb j = if j = i then f (k.tlb i) else k.tlb j := by
  simp [Kernel.modTLB, Function.update_apply]

/-- The space without its page table: what no write to a page changes. -/
def Kernel.shape (k : Kernel) (s : Nat) : Option AddrSpace :=
  (k.spaces s).map ({ · with pageTable := fun _ => {} })

theorem numPages_of_shape {k k' : Kernel} (h : k'.shape = k.shape) : k'.numPages = k.numPages := by
  funext s
  have hs := congrFun h s
  simp only [Kernel.shape] at hs
  unfold Kernel.numPages
  cases hk : k.spaces s <;> cases hk' : k'.spaces s <;> simp_all

theorem shape_some {k : Kernel} {s : Nat} {sp : AddrSpace} (h : k.spaces s = some sp) :
    k.shape s = some { sp with pageTable := fun _ => {} } := by
  simp [Kernel.shape, h]

@[simp] theorem modPage_shape (k : Kernel) (s v : Nat) (f) : (k.modPage s v f).shape = k.shape := by
  funext t
  by_cases h : t = s
  · subst h
    cases ht : k.spaces t <;> simp [Kernel.shape, Kernel.modPage, AddrSpace.modPage, ht]
  · simp [Kernel.shape, Kernel.modPage, Function.update_of_ne h]

/-- A write to a page of a live space changes that page and no other. -/
theorem modPage_page (k : Kernel) (s v t w : Nat) (f : PageTableEntry → PageTableEntry)
    (hs : k.HasPage s v) :
    (k.modPage s v f).page t w = if t = s ∧ w = v then f (k.page s v) else k.page t w := by
  by_cases ht : t = s
  · subst ht
    cases hsp : k.spaces t with
    | none => simp [Kernel.HasPage, Kernel.numPages, hsp] at hs
    | some sp =>
      simp [Kernel.page, Kernel.modPage, AddrSpace.modPage, hsp, Function.update_apply]
  · simp [Kernel.page, Kernel.modPage, ht]

end Nachos.VM

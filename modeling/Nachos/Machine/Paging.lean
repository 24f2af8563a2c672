import Mathlib.Tactic.Ring
import Nachos.Machine.Faults
import Nachos.VM.Copy
import Nachos.VM.Fresh

/-!
# The simulated processor: demand-paged memory

`Machine::Translate`, `ReadMem` and `WriteMem` (`machine/translate.cc`) for one, two or four bytes,
over the kernel's tables. The stores of every space are recorded beside the machine.

What is aligned lies in one page, so that one translation is right for all its bytes
(`translate_near`), and an access of the running thread reads and writes the bytes that the program
sees (`View`).
-/

namespace Nachos.Machine

open Lib Lib.Mem
open VM (Kernel History Op AddrSpace PageSize NumPhysPages TLBSize tlbEntryOfPage
  exitedStack handleTLBMiss FillsZero FreshStep)

/-! ### Accesses -/

/-- The exception that `Translate` raises for an aligned access. -/
def ofTranslate : VM.ExceptionType → ExceptionType
  | .PageFaultException => .PageFaultException
  | .ReadOnlyException => .ReadOnlyException
  | .BusErrorException => .BusErrorException

/-- `Machine::Translate`. -/
def Translate (k : Kernel) (virtAddr : Word) (size : Size) (writing : Bool) :
    Except ExceptionType (Kernel × Nat) :=
  if size.Misaligned virtAddr then .error .AddressErrorException
  else
    match VM.translate k virtAddr.toNat writing with
    | .ok res => .ok res
    | .error which => .error (ofTranslate which)

/-- The bytes of `mainMemory`. -/
def mainBytes (mainMemory : Nat → UInt8) : Mem := fun a => (mainMemory a).toBitVec

def withBytes (k : Kernel) (m : Mem) : Kernel := { k with mainMemory := fun a => ⟨m a⟩ }

/-- The space `s` has stored the first `n` bytes of a value at `addr`. -/
def recordBytes (g : History) (s addr : Nat) (value : Word) (n : Nat) : History :=
  ⟨fun t a => if t = s ∧ addr ≤ a ∧ a < addr + n then
    some ⟨value.extractLsb' (8 * (a - addr)) 8⟩ else g.stored t a, g.exe⟩

namespace Paged

/-- `Machine::ReadMem`. -/
def ReadMem (c : Kernel × History) (addr : Word) (size : Size) :
    Except ExceptionType ((Kernel × History) × Word) :=
  match Translate c.1 addr size false with
  | .ok (k, physicalAddress) => .ok ((k, c.2), size.get (mainBytes k.mainMemory) physicalAddress)
  | .error which => .error which

/-- `Machine::WriteMem` by a thread of the space `s`. -/
def WriteMem (s : Nat) (c : Kernel × History) (addr : Word) (size : Size) (value : Word) :
    Except ExceptionType (Kernel × History) :=
  match Translate c.1 addr size true with
  | .ok (k, physicalAddress) =>
    .ok (withBytes k (size.put (mainBytes k.mainMemory) physicalAddress value),
      recordBytes c.2 s addr.toNat value size.bytes)
  | .error which => .error which

def memory (s : Nat) : Memory (Kernel × History) := ⟨ReadMem, WriteMem s⟩

end Paged

/-! ### Bytes of an access -/

namespace Size

variable {size : Size} {m m' : Mem} {a b : Nat}

theorem get_congr (h : ∀ k < size.bytes, m (a + k) = m' (b + k)) : size.get m a = size.get m' b := by
  cases size with
  | byte =>
    have h0 : m a = m' b := h 0 (by decide)
    rw [get, get, h0]
  | short =>
    have h0 : m a = m' b := h 0 (by decide)
    rw [get, get, h0, h 1 (by decide)]
  | word => exact wordAt_congr h

theorem and_low {addr : Word} {n : Nat} (hn : n < 32)
    (h : addr &&& BitVec.ofNat 32 (2 ^ n - 1) = 0) : addr.toNat % 2 ^ n = 0 := by
  have hnat := congrArg BitVec.toNat h
  have hlt : 2 ^ n - 1 < 2 ^ 32 := by
    have := Nat.pow_lt_pow_right (a := 2) (by decide) hn
    omega
  rw [BitVec.toNat_and, BitVec.toNat_ofNat, Nat.mod_eq_of_lt hlt,
    Nat.and_two_pow_sub_one_eq_mod] at hnat
  exact hnat

theorem aligned {addr : Word} (h : ¬ size.Misaligned addr) : addr.toNat % size.bytes = 0 := by
  unfold Misaligned at h
  cases size with
  | byte => exact Nat.mod_one _
  | short => exact and_low (n := 1) (by decide) (by simpa using h)
  | word => exact and_low (n := 2) (by decide) (by simpa using h)

/-- What is aligned lies in one page. -/
theorem within_page {addr : Word} (h : ¬ size.Misaligned addr) :
    addr.toNat % PageSize + size.bytes ≤ PageSize := by
  have hmod := aligned h
  cases size with
  | byte =>
    show addr.toNat % 128 + 1 ≤ 128
    omega
  | short =>
    replace hmod : addr.toNat % 2 = 0 := hmod
    show addr.toNat % 128 + 2 ≤ 128
    omega
  | word =>
    replace hmod : addr.toNat % 4 = 0 := hmod
    show addr.toNat % 128 + 4 ≤ 128
    omega

end Size

/-! ### One translation for all bytes -/

section

variable {k k' : Kernel} {addr pa j : Nat} {w : Bool}

theorem near_page (hj : addr % PageSize + j < PageSize) :
    (addr + j) / PageSize = addr / PageSize ∧ (addr + j) % PageSize = addr % PageSize + j := by
  have hpage : PageSize = 128 := rfl
  rw [hpage] at hj ⊢
  omega

theorem translate_near (hj : addr % PageSize + j < PageSize)
    (h : VM.translate k addr w = .ok (k', pa)) : VM.translate k (addr + j) w = .ok (k', pa + j) := by
  obtain ⟨hdiv, hmod⟩ := near_page hj
  unfold VM.translate at h ⊢
  rw [hdiv, hmod]
  split at h
  · cases h
  · dsimp only at h ⊢
    split at h
    · cases h
    · rename_i hwritable
      rw [if_neg hwritable]
      split at h
      · rename_i hframe
        cases h
        rw [if_pos hframe, Nat.add_assoc]
      · cases h

/-- The second translation changes nothing: the bits of the entry are set. -/
theorem translate_again (h : VM.translate k addr w = .ok (k', pa)) (m : Mem) :
    VM.translate (withBytes k' m) addr w = .ok (withBytes k' m, pa) := by
  have hentries := VM.tlbEntryOfPage_translate h (addr / PageSize)
  unfold VM.translate at h
  split at h
  · cases h
  · rename_i i hi
    dsimp only at h
    split at h
    · cases h
    · rename_i hwritable
      split at h
      · rename_i hframe
        cases h
        rw [hi] at hentries
        have hfind : tlbEntryOfPage (withBytes (k.modTLB i fun e =>
            { e with use := true, dirty := e.dirty || w }) m) (addr / PageSize) = some i := hentries
        have hentry : (withBytes (k.modTLB i fun e =>
            { e with use := true, dirty := e.dirty || w }) m).tlb i =
            { k.tlb i with use := true, dirty := (k.tlb i).dirty || w } := Function.update_self ..
        have hsame : (withBytes (k.modTLB i fun e =>
            { e with use := true, dirty := e.dirty || w }) m).modTLB i (fun e =>
              { e with use := true, dirty := e.dirty || w }) =
            withBytes (k.modTLB i fun e => { e with use := true, dirty := e.dirty || w }) m := by
          simp [Kernel.modTLB, withBytes]
        unfold VM.translate
        rw [hfind]
        dsimp only
        rw [hentry, if_neg hwritable, if_pos hframe, hsame]
      · cases h

theorem translate_running (h : VM.translate k addr w = .ok (k', pa)) : k'.running = k.running := by
  obtain ⟨i, f, -, -, -, -, -, -, rfl⟩ := VM.translate_ok h
  rfl

theorem translate_exitedStack (h : VM.translate k addr w = .ok (k', pa)) (s v : Nat) :
    exitedStack k' s v = exitedStack k s v :=
  (VM.tlbOnly_translate h).sameLayout.exitedStack s v

/-- The entry that is used is that of the page. -/
theorem translate_entry (h : VM.translate k addr w = .ok (k', pa)) :
    ∃ i < TLBSize, (k.tlb i).valid = true ∧ (k.tlb i).virtualPage = addr / PageSize := by
  obtain ⟨i, f, hi, hv, hp, -⟩ := VM.translate_ok h
  exact ⟨i, hi, hv, hp⟩

end

/-! ### What a program sees -/

/-- The byte that the space `s` sees at an address. -/
def seen (g : History) (s a : Nat) : Byte := ((g.stored s a).getD ((g.exe s).freshByte a)).toBitVec

/-- The thread `tid` of the space `s` runs and sees the memory `f`. Its TLB has no page of a stack
that was given back. -/
structure View (tid s : Nat) (c : Kernel × History) (f : Mem) : Prop where
  fresh : VM.Fresh c.1 c.2
  writable : VM.Writable c.1
  running : ∃ sp, c.1.running = some (tid, s, sp)
  live : ∀ i < TLBSize, (c.1.tlb i).valid = true →
    exitedStack c.1 s (c.1.tlb i).virtualPage = false
  bytes : ∀ a, f a = seen c.2 s a

section

variable {tid s : Nat} {k k' : Kernel} {g : History} {f : Mem} {addr : Word} {pa : Nat} {w : Bool}

theorem freshTranslate (h : VM.Fresh k g) {addr : Nat} (htr : VM.translate k addr w = .ok (k', pa)) :
    VM.Fresh k' g := by
  have hsh := VM.tlbOnly_translate htr
  refine ⟨h.transparent.shrinks (VM.shrinks_translate htr), h.programs.tlbOnly hsh,
    fun t a b hst hp hex hfresh => ?_⟩
  rw [hsh.hasPage] at hp
  rw [hsh.sameLayout.exitedStack] at hex
  exact (h.bytes t a b hst hp hex hfresh).tlbOnly hsh

namespace View

theorem ready (h : View tid s (k, g) f) : VM.Ready k :=
  ⟨h.fresh.transparent.sound, h.fresh.transparent.tlb, h.writable⟩

/-- The page of a translation was not given back. -/
theorem page_live (h : View tid s (k, g) f) {addr : Nat}
    (htr : VM.translate k addr w = .ok (k', pa)) : exitedStack k s (addr / PageSize) = false := by
  obtain ⟨i, hi, hv, hp⟩ := translate_entry htr
  rw [← hp]
  exact h.live i hi hv

theorem translated (h : View tid s (k, g) f) {addr : Nat}
    (htr : VM.translate k addr w = .ok (k', pa)) : View tid s (k', g) f := by
  obtain ⟨sp, hrun⟩ := h.running
  refine ⟨freshTranslate h.fresh htr, h.writable.translated htr,
    ⟨sp, (translate_running htr).trans hrun⟩, fun i hi hv => ?_, h.bytes⟩
  obtain ⟨hv₀, hvp, -⟩ := (VM.shrinks_translate htr).sub i hi hv
  show exitedStack k' s (k'.tlb i).virtualPage = false
  rw [translate_exitedStack htr, hvp]
  exact h.live i hi hv₀

/-- **A byte of an access** is the one that the program sees. -/
theorem byte_eq (h : View tid s (k, g) f) {addr j : Nat}
    (htr : VM.translate k addr false = .ok (k', pa)) (hj : addr % PageSize + j < PageSize) :
    mainBytes k'.mainMemory (pa + j) = f (addr + j) := by
  obtain ⟨sp, hrun⟩ := h.running
  have hnear := translate_near hj htr
  have hlive := h.page_live hnear
  rw [h.bytes, seen]
  show (k'.mainMemory (pa + j)).toBitVec = _
  congr 1
  cases hstored : g.stored s (addr + j) with
  | none => exact h.fresh.load hrun hnear hlive hstored
  | some b => exact h.fresh.transparent.load hrun hnear hlive hstored

/-- **The kernel's byte** is the one that the program sees, in the frame or the slot of its page. -/
theorem shows (h : View tid s (k, g) f) {a : Nat} (hp : k.HasPage s (a / PageSize))
    (hlive : exitedStack k s (a / PageSize) = false) : VM.Shows k s a ⟨f a⟩ := by
  rw [h.bytes, seen]
  cases hstored : g.stored s a with
  | none => exact h.fresh.bytes s a _ hstored hp hlive rfl
  | some b =>
    obtain ⟨-, ⟨hmain, hbyte, -⟩ | ⟨hswap, -, hbyte⟩⟩ :=
      h.fresh.transparent.holds s a b hstored hp hlive
    · refine fun _ => ⟨fun _ => hbyte, fun hloc => ?_⟩
      rw [hmain] at hloc
      cases hloc
    · refine fun _ => ⟨fun hloc => ?_, fun _ => hbyte⟩
      rw [hswap] at hloc
      cases hloc

end View

/-- Bytes that are stored one after the other. -/
theorem freshStores (h : VM.Fresh k g) {tid s addr : Nat} {sp : AddrSpace}
    (hrun : k.running = some (tid, s, sp)) (htr : VM.translate k addr true = .ok (k', pa))
    (value : Word) {n : Nat} (hn : addr % PageSize + n ≤ PageSize) :
    VM.Fresh (withBytes k' (copy (mainBytes k'.mainMemory) pa
      (fun j => value.extractLsb' (8 * j) 8) 0 n)) (recordBytes g s addr value n) := by
  induction n with
  | zero =>
    have hmem : withBytes k' (copy (mainBytes k'.mainMemory) pa
        (fun j => value.extractLsb' (8 * j) 8) 0 0) = k' := by
      rw [copy_zero]
      rfl
    have hrecord : recordBytes g s addr value 0 = g := by
      unfold recordBytes
      congr
      funext t a
      rw [if_neg (by omega)]
    rw [hmem, hrecord]
    exact freshTranslate h htr
  | succ n ih =>
    have ih := ih (by omega)
    have hnext := translate_near (by omega : addr % PageSize + n < PageSize)
      (translate_again htr (copy (mainBytes k'.mainMemory) pa
        (fun j => value.extractLsb' (8 * j) 8) 0 n))
    have hmem : withBytes k' (copy (mainBytes k'.mainMemory) pa
        (fun j => value.extractLsb' (8 * j) 8) 0 (n + 1)) =
        { withBytes k' (copy (mainBytes k'.mainMemory) pa
          (fun j => value.extractLsb' (8 * j) 8) 0 n) with
          mainMemory := Function.update (withBytes k' (copy (mainBytes k'.mainMemory) pa
            (fun j => value.extractLsb' (8 * j) 8) 0 n)).mainMemory (pa + n)
            ⟨value.extractLsb' (8 * n) 8⟩ } := by
      unfold withBytes
      congr 1
      funext a
      rw [Function.update_apply]
      split
      · rename_i heq
        rw [heq, copy_at (Nat.lt_succ_self n), Nat.zero_add]
      · rename_i hne
        congr 1
        unfold copy
        by_cases hin : pa ≤ a ∧ a < pa + n
        · rw [if_pos hin, if_pos (by omega)]
        · rw [if_neg hin, if_neg (by omega)]
    have hrecord : recordBytes g s addr value (n + 1) =
        ⟨(recordBytes g s addr value n).stored.record
          (.stored s (addr + n) ⟨value.extractLsb' (8 * n) 8⟩), g.exe⟩ := by
      unfold recordBytes VM.Flat.record
      congr 1
      funext t a
      dsimp only
      by_cases hself : t = s ∧ a = addr + n
      · rw [if_pos (by omega), if_pos hself, hself.2, Nat.add_sub_cancel_left]
      · rw [if_neg hself]
        by_cases hin : t = s ∧ addr ≤ a ∧ a < addr + n
        · rw [if_pos (by omega), if_pos hin]
        · rw [if_neg (by omega), if_neg hin]
    rw [hmem, hrecord]
    exact ih.store ((translate_running htr).trans hrun) hnext

/-- **A store** changes the bytes that the program sees as one to its own memory does. -/
theorem View.stored (h : View tid s (k, g) f) {addr : Nat} {size : Size}
    (htr : VM.translate k addr true = .ok (k', pa)) (value : Word)
    (hn : addr % PageSize + size.bytes ≤ PageSize) :
    View tid s (withBytes k' (size.put (mainBytes k'.mainMemory) pa value),
      recordBytes g s addr value size.bytes) (size.put f addr value) := by
  obtain ⟨sp, hrun⟩ := h.running
  have h' := h.translated htr
  refine ⟨freshStores h.fresh hrun htr value hn, h'.writable.congr rfl rfl rfl rfl, h'.running,
    h'.live, fun a => ?_⟩
  show copy f addr _ 0 size.bytes a = _
  unfold copy seen recordBytes
  by_cases hin : addr ≤ a ∧ a < addr + size.bytes
  · rw [if_pos hin]
    dsimp only
    rw [if_pos ⟨rfl, hin⟩, Option.getD_some, Nat.zero_add]
  · rw [if_neg hin]
    dsimp only
    rw [if_neg fun hself => hin hself.2]
    exact h.bytes a

/-- A translation of an aligned address succeeds, or the page is not in the TLB. -/
theorem View.translate_cases (h : View tid s (k, g) f) (addr : Nat) (w : Bool) :
    (∃ k' pa, VM.translate k addr w = .ok (k', pa)) ∨
      (VM.translate k addr w = .error .PageFaultException ∧
        tlbEntryOfPage k (addr / PageSize) = none) := by
  obtain ⟨sp, hrun⟩ := h.running
  cases hentry : tlbEntryOfPage k (addr / PageSize) with
  | some i =>
    have hin : VM.InTLB k addr := by simp [VM.InTLB, hentry]
    obtain ⟨-, k', htr⟩ := h.ready.translate_hit hrun hin w
    exact .inl ⟨k', _, htr⟩
  | none =>
    refine .inr ⟨?_, rfl⟩
    unfold VM.translate
    rw [hentry]

end

end Nachos.Machine

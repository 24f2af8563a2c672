import Nachos.Machine.Instruction

/-!
# The simulated processor: steps

`Machine::OneInstruction`, `DelayedLoad` and `RaiseException` (`machine/mipssim.cc`,
`machine/machine.cc`).

A load takes effect after the instruction that follows it; a trap to the kernel makes it take
effect at once. An instruction that traps is started again when the kernel returns, so that what it
does then may depend on the trap if it looks at the register that was being loaded.

`OneInstruction` is over any memory (`Memory`): that of the machine with the kernel's paging, or a
flat one (`Flat.memory`), which is what user programs are to see.
-/

namespace Nachos.Machine

open Lib Lib.Mem

/-! ### Memory -/

namespace Size

def bytes : Size → Nat
  | .byte => 1
  | .short => 2
  | .word => 4

/-- The bytes from `a` on as the value of an `int`, least significant first; a `char` is signed. -/
def get (size : Size) (m : Mem) (a : Nat) : Word :=
  match size with
  | .byte => (m a).signExtend 32
  | .short => (m (a + 1) ++ m a).zeroExtend 32
  | .word => wordAt m a

def put (size : Size) (m : Mem) (a : Nat) (value : Word) : Mem :=
  copy m a (fun k => value.extractLsb' (8 * k) 8) 0 size.bytes

/-- The check for alignment of `Translate`. -/
def Misaligned (size : Size) (virtAddr : Word) : Prop :=
  (size = .word ∧ virtAddr &&& 3#32 ≠ 0) ∨ (size = .short ∧ virtAddr &&& 1#32 ≠ 0)

instance (size : Size) (virtAddr : Word) : Decidable (size.Misaligned virtAddr) :=
  inferInstanceAs (Decidable (_ ∨ _))

end Size

/-- What the processor does with a memory. -/
structure Memory (μ : Type) where
  ReadMem : μ → Word → Size → Except ExceptionType (μ × Word)
  WriteMem : μ → Word → Size → Word → Except ExceptionType μ

/-! The memory of one program by itself: a byte at each address. -/

namespace Flat

def ReadMem (m : Mem) (addr : Word) (size : Size) : Except ExceptionType (Mem × Word) :=
  if size.Misaligned addr then .error .AddressErrorException
  else .ok (m, size.get m addr.toNat)

def WriteMem (m : Mem) (addr : Word) (size : Size) (value : Word) : Except ExceptionType Mem :=
  if size.Misaligned addr then .error .AddressErrorException
  else .ok (size.put m addr.toNat value)

def memory : Memory Mem := ⟨ReadMem, WriteMem⟩

end Flat

/-! ### Steps -/

/-- `Machine::DelayedLoad`. -/
def DelayedLoad (r : Registers) (nextReg : Nat) (nextValue : Word) : Registers :=
  let r := Function.update r (r LoadReg).toNat (r LoadValueReg)
  let r := Function.update r LoadReg (BitVec.ofNat 32 nextReg)
  let r := Function.update r LoadValueReg nextValue
  Function.update r 0 0

/-- The end of `OneInstruction`. -/
def advance (r : Registers) (nextReg : Nat) (nextValue pcAfter : Word) : Registers :=
  let r := DelayedLoad r nextReg nextValue
  let r := Function.update r PrevPCReg (r PCReg)
  let r := Function.update r PCReg (r NextPCReg)
  Function.update r NextPCReg pcAfter

/-- The registers that `ExceptionHandler` finds. -/
def trapped (r : Registers) (badVAddr : Word) : Registers :=
  DelayedLoad (Function.update r BadVAddrReg badVAddr) 0 0

/-- How an instruction ends: it is done, it traps to the kernel, or an assertion fails. -/
inductive Outcome (μ : Type) where
  | done (r : Registers) (m : μ)
  | trap (which : ExceptionType) (r : Registers) (m : μ)
  | stopped

variable {μ : Type} (M : Memory μ)

/-- The action of the switch is carried out. -/
def carryOut (r : Registers) (m : μ) : Action → Outcome μ
  | .set updates pcAfter => .done (advance (apply updates r) 0 0 pcAfter) m
  | .load addr size rt value =>
    match M.ReadMem m addr size with
    | .ok (m, v) => .done (advance r rt (value v) (r NextPCReg + 4)) m
    | .error which => .trap which (trapped r addr) m
  | .store addr size value =>
    match M.WriteMem m addr size value with
    | .ok m => .done (advance r 0 0 (r NextPCReg + 4)) m
    | .error which => .trap which (trapped r addr) m
  | .merge addr value =>
    match M.ReadMem m addr .word with
    | .ok (m, v) =>
      match M.WriteMem m addr .word (value v) with
      | .ok m => .done (advance r 0 0 (r NextPCReg + 4)) m
      | .error which => .trap which (trapped r addr) m
    | .error which => .trap which (trapped r addr) m
  | .raise which badVAddr => .trap which (trapped r badVAddr) m
  | .stop => .stopped

/-- `Machine::OneInstruction`, up to the call of `ExceptionHandler`. -/
def OneInstruction (r : Registers) (m : μ) : Outcome μ :=
  match M.ReadMem m (r PCReg) .word with
  | .ok (m, raw) => carryOut M r m (execute (Decode raw) r)
  | .error which => .trap which (trapped r (r PCReg)) m

end Nachos.Machine

import Nachos.Lib.Memory

/-!
# The simulated processor: instructions

`machine/mipssim.h` and `Instruction::Decode`, `Mult` and the switch of `Machine::OneInstruction`
(`machine/mipssim.cc`). What a case of the switch computes from the registers is an `Action`: the
registers that it sets, or the one access to memory that it makes. `Machine.OneInstruction` (in
the module after the next) carries it out.

The processor is not a real one everywhere: `OR` does not look at `rt`, and the logical right
shifts are arithmetic. `DIV` of the least number by -1 is left out: the simulator divides two host
ints there and is stopped by the host, and the quotient here is that of the words.
-/

namespace Nachos.Machine

open Lib

abbrev Word := BitVec 32

/-! ### Registers -/

def R31 : Nat := 31
def NumGPRegs : Nat := 32
def HiReg : Nat := 32
def LoReg : Nat := 33
def PCReg : Nat := 34
def NextPCReg : Nat := 35
def PrevPCReg : Nat := 36
def LoadReg : Nat := 37
def LoadValueReg : Nat := 38
def BadVAddrReg : Nat := 39

abbrev Registers := Nat → Word

def SIGN_BIT : Word := 0x80000000

/-- `IndexToAddr`. -/
def IndexToAddr (x : Word) : Word := x <<< 2

/-! ### Decoding -/

inductive OpCode where
  | OP_ADD | OP_ADDI | OP_ADDIU | OP_ADDU | OP_AND | OP_ANDI
  | OP_BEQ | OP_BGEZ | OP_BGEZAL | OP_BGTZ | OP_BLEZ | OP_BLTZ | OP_BLTZAL | OP_BNE
  | OP_DIV | OP_DIVU | OP_J | OP_JAL | OP_JALR | OP_JR
  | OP_LB | OP_LBU | OP_LH | OP_LHU | OP_LUI | OP_LW | OP_LWL | OP_LWR
  | OP_MFHI | OP_MFLO | OP_MTHI | OP_MTLO | OP_MULT | OP_MULTU
  | OP_NOR | OP_OR | OP_ORI | OP_SB | OP_SH | OP_SLL | OP_SLLV
  | OP_SLT | OP_SLTI | OP_SLTIU | OP_SLTU | OP_SRA | OP_SRAV | OP_SRL | OP_SRLV
  | OP_SUB | OP_SUBU | OP_SW | OP_SWL | OP_SWR | OP_XOR | OP_XORI
  | OP_SYSCALL | OP_UNIMP | OP_RES
  deriving DecidableEq

open OpCode

/-- An entry of `opTable`: an operation, or where to look further. -/
inductive TableOp where
  | op (opCode : OpCode)
  | SPECIAL
  | BCOND
  deriving DecidableEq

inductive Format where
  | IFMT | JFMT | RFMT
  deriving DecidableEq

def opTable : List (TableOp × Format) :=
  [(.SPECIAL, .RFMT), (.BCOND, .IFMT), (.op OP_J, .JFMT), (.op OP_JAL, .JFMT),
    (.op OP_BEQ, .IFMT), (.op OP_BNE, .IFMT), (.op OP_BLEZ, .IFMT), (.op OP_BGTZ, .IFMT),
    (.op OP_ADDI, .IFMT), (.op OP_ADDIU, .IFMT), (.op OP_SLTI, .IFMT), (.op OP_SLTIU, .IFMT),
    (.op OP_ANDI, .IFMT), (.op OP_ORI, .IFMT), (.op OP_XORI, .IFMT), (.op OP_LUI, .IFMT)] ++
  List.replicate 4 (.op OP_UNIMP, .IFMT) ++ List.replicate 12 (.op OP_RES, .IFMT) ++
  [(.op OP_LB, .IFMT), (.op OP_LH, .IFMT), (.op OP_LWL, .IFMT), (.op OP_LW, .IFMT),
    (.op OP_LBU, .IFMT), (.op OP_LHU, .IFMT), (.op OP_LWR, .IFMT), (.op OP_RES, .IFMT),
    (.op OP_SB, .IFMT), (.op OP_SH, .IFMT), (.op OP_SWL, .IFMT), (.op OP_SW, .IFMT),
    (.op OP_RES, .IFMT), (.op OP_RES, .IFMT), (.op OP_SWR, .IFMT), (.op OP_RES, .IFMT)] ++
  List.replicate 4 (.op OP_UNIMP, .IFMT) ++ List.replicate 4 (.op OP_RES, .IFMT) ++
  List.replicate 4 (.op OP_UNIMP, .IFMT) ++ List.replicate 4 (.op OP_RES, .IFMT)

def specialTable : List OpCode :=
  [OP_SLL, OP_RES, OP_SRL, OP_SRA, OP_SLLV, OP_RES, OP_SRLV, OP_SRAV,
    OP_JR, OP_JALR, OP_RES, OP_RES, OP_SYSCALL, OP_UNIMP, OP_RES, OP_RES,
    OP_MFHI, OP_MTHI, OP_MFLO, OP_MTLO, OP_RES, OP_RES, OP_RES, OP_RES,
    OP_MULT, OP_MULTU, OP_DIV, OP_DIVU, OP_RES, OP_RES, OP_RES, OP_RES,
    OP_ADD, OP_ADDU, OP_SUB, OP_SUBU, OP_AND, OP_OR, OP_XOR, OP_NOR,
    OP_RES, OP_RES, OP_SLT, OP_SLTU, OP_RES, OP_RES, OP_RES, OP_RES] ++
  List.replicate 16 OP_RES

/-- Neither table has a gap. -/
example : opTable.length = 64 ∧ specialTable.length = 64 := by decide

/-- `class Instruction`. -/
structure Instruction where
  opCode : OpCode
  rs : Nat
  rt : Nat
  rd : Nat
  extra : Word

/-- `Instruction::Decode`. -/
def Decode (value : Word) : Instruction :=
  let opPtr := opTable.getD ((value >>> 26) &&& 0x3f#32).toNat (.op OP_RES, .IFMT)
  { rs := ((value >>> 21) &&& 0x1f#32).toNat
    rt := ((value >>> 16) &&& 0x1f#32).toNat
    rd := ((value >>> 11) &&& 0x1f#32).toNat
    extra := match opPtr.2 with
      | .IFMT =>
        let extra := value &&& 0xffff#32
        if extra &&& 0x8000#32 ≠ 0 then extra ||| 0xffff0000#32 else extra
      | .RFMT => (value >>> 6) &&& 0x1f#32
      | .JFMT => value &&& 0x3ffffff#32
    opCode := match opPtr.1 with
      | .SPECIAL => specialTable.getD (value &&& 0x3f#32).toNat OP_RES
      | .BCOND =>
        let i := value &&& 0x1f0000#32
        if i = 0 then OP_BLTZ
        else if i = 0x10000#32 then OP_BGEZ
        else if i = 0x100000#32 then OP_BLTZAL
        else if i = 0x110000#32 then OP_BGEZAL
        else OP_UNIMP
      | .op opCode => opCode }

/-! ### Multiplying -/

/-- The variables of the loop of `Mult`. -/
structure MultState where
  a : Word
  bHi : Word
  bLo : Word
  hi : Word
  lo : Word

namespace MultState

/-- `lo += bLo`, with the carry, and `hi += bHi`. -/
def add (s : MultState) : MultState :=
  let lo := s.lo + s.bLo
  { s with lo := lo, hi := (if lo < s.bLo then s.hi + 1 else s.hi) + s.bHi }

/-- The end of a turn: `b` is shifted to the left, `a` to the right as an `int` is. -/
def shift (s : MultState) : MultState :=
  { s with
    bHi := (s.bHi <<< 1) ||| (if s.bLo &&& 0x80000000#32 ≠ 0 then 1#32 else 0#32)
    bLo := s.bLo <<< 1
    a := s.a.sshiftRight 1 }

/-- The loop of `Mult`, `n` turns at most. -/
def loop : Nat → MultState → MultState
  | 0, s => s
  | n + 1, s =>
    if s.a &&& 1#32 ≠ 0 then
      if s.a &&& 0xfffffffe#32 = 0 then s.add else loop n s.add.shift
    else loop n s.shift

end MultState

/-- `Mult`: what `*hiPtr` and `*loPtr` are set to. -/
def Mult (a b : Word) (signedArith : Bool) : Word × Word :=
  if a = 0 ∨ b = 0 then (0, 0)
  else
    let aNegative := signedArith && a.slt 0
    let bNegative := signedArith && b.slt 0
    let a := if aNegative then -a else a
    let b := if bNegative then -b else b
    let s := MultState.loop 32 ⟨a, 0, b, 0, 0⟩
    if aNegative ^^ bNegative then
      let hi := ~~~s.hi
      let lo := ~~~s.lo + 1
      (if lo = 0 then hi + 1 else hi, lo)
    else (s.hi, s.lo)

/-! ### The switch -/

/-- `enum ExceptionType`, without `NoException`. -/
inductive ExceptionType where
  | SyscallException | PageFaultException | ReadOnlyException | BusErrorException
  | AddressErrorException | OverflowException | IllegalInstrException
  deriving DecidableEq

/-- The sizes of accesses: 1, 2 and 4 bytes. -/
inductive Size where
  | byte | short | word
  deriving DecidableEq

/-- What a case of the switch does: set registers and `pcAfter`; load `rt` from memory; store;
change a word in memory; raise an exception; or fail an assertion. -/
inductive Action where
  | set (updates : List (Nat × Word)) (pcAfter : Word)
  | load (addr : Word) (size : Size) (rt : Nat) (value : Word → Word)
  | store (addr : Word) (size : Size) (value : Word)
  | merge (addr : Word) (value : Word → Word)
  | raise (which : ExceptionType) (badVAddr : Word)
  | stop

def apply (updates : List (Nat × Word)) (r : Registers) : Registers :=
  updates.foldl (fun r u => Function.update r u.1 u.2) r

/-- What is in `rt`, or on its way there. -/
def forwarded (r : Registers) (rt : Nat) : Word :=
  if (r LoadReg).toNat = rt then r LoadValueReg else r rt

/-- `nextLoadValue` of `LWL`, by the place in the word. -/
def loadLeft (place next value : Word) : Word :=
  if place = 0 then value
  else if place = 1 then (next &&& 0xff#32) ||| (value <<< 8)
  else if place = 2 then (next &&& 0xffff#32) ||| (value <<< 16)
  else (next &&& 0xffffff#32) ||| (value <<< 24)

def loadRight (place next value : Word) : Word :=
  if place = 0 then (next &&& 0xffffff00#32) ||| ((value.sshiftRight 24) &&& 0xff#32)
  else if place = 1 then (next &&& 0xffff0000#32) ||| ((value.sshiftRight 16) &&& 0xffff#32)
  else if place = 2 then (next &&& 0xff000000#32) ||| ((value.sshiftRight 8) &&& 0xffffff#32)
  else value

/-- The word that `SWL` writes. -/
def storeLeft (place reg value : Word) : Word :=
  if place = 0 then reg
  else if place = 1 then (value &&& 0xff000000#32) ||| ((reg.sshiftRight 8) &&& 0xffffff#32)
  else if place = 2 then (value &&& 0xffff0000#32) ||| ((reg.sshiftRight 16) &&& 0xffff#32)
  else (value &&& 0xffffff00#32) ||| ((reg.sshiftRight 24) &&& 0xff#32)

def storeRight (place reg value : Word) : Word :=
  if place = 0 then (value &&& 0xffffff#32) ||| (reg <<< 24)
  else if place = 1 then (value &&& 0xffff#32) ||| (reg <<< 16)
  else if place = 2 then (value &&& 0xff#32) ||| (reg <<< 8)
  else reg

/-- The switch of `Machine::OneInstruction`. -/
def execute (i : Instruction) (r : Registers) : Action :=
  let rs := r i.rs
  let rt := r i.rt
  let pcAfter := r NextPCReg + 4
  let tmp := rs + i.extra
  let branch := r NextPCReg + IndexToAddr i.extra
  match i.opCode with
  | OP_ADD =>
    let sum := rs + rt
    if (rs ^^^ rt) &&& SIGN_BIT = 0 ∧ (rs ^^^ sum) &&& SIGN_BIT ≠ 0 then .raise .OverflowException 0
    else .set [(i.rd, sum)] pcAfter
  | OP_ADDI =>
    let sum := rs + i.extra
    if (rs ^^^ i.extra) &&& SIGN_BIT = 0 ∧ (i.extra ^^^ sum) &&& SIGN_BIT ≠ 0 then
      .raise .OverflowException 0
    else .set [(i.rt, sum)] pcAfter
  | OP_ADDIU => .set [(i.rt, rs + i.extra)] pcAfter
  | OP_ADDU => .set [(i.rd, rs + rt)] pcAfter
  | OP_AND => .set [(i.rd, rs &&& rt)] pcAfter
  | OP_ANDI => .set [(i.rt, rs &&& (i.extra &&& 0xffff#32))] pcAfter
  | OP_BEQ => .set [] (if rs = rt then branch else pcAfter)
  | OP_BGEZAL =>
    let updates := [(R31, r NextPCReg + 4)]
    .set updates (if apply updates r i.rs &&& SIGN_BIT = 0 then branch else pcAfter)
  | OP_BGEZ => .set [] (if rs &&& SIGN_BIT = 0 then branch else pcAfter)
  | OP_BGTZ => .set [] (if (0#32).slt rs then branch else pcAfter)
  | OP_BLEZ => .set [] (if rs.sle 0#32 then branch else pcAfter)
  | OP_BLTZAL =>
    let updates := [(R31, r NextPCReg + 4)]
    .set updates (if apply updates r i.rs &&& SIGN_BIT ≠ 0 then branch else pcAfter)
  | OP_BLTZ => .set [] (if rs &&& SIGN_BIT ≠ 0 then branch else pcAfter)
  | OP_BNE => .set [] (if rs ≠ rt then branch else pcAfter)
  | OP_DIV =>
    if rt = 0 then .set [(LoReg, 0), (HiReg, 0)] pcAfter
    else .set [(LoReg, rs.sdiv rt), (HiReg, rs.srem rt)] pcAfter
  | OP_DIVU =>
    if rt = 0 then .set [(LoReg, 0), (HiReg, 0)] pcAfter
    else .set [(LoReg, rs / rt), (HiReg, rs % rt)] pcAfter
  | OP_JAL =>
    .set [(R31, r NextPCReg + 4)] ((pcAfter &&& 0xf0000000#32) ||| IndexToAddr i.extra)
  | OP_J => .set [] ((pcAfter &&& 0xf0000000#32) ||| IndexToAddr i.extra)
  | OP_JALR =>
    let updates := [(i.rd, r NextPCReg + 4)]
    .set updates (apply updates r i.rs)
  | OP_JR => .set [] rs
  | OP_LB => .load tmp .byte i.rt fun value =>
      if value &&& 0x80#32 ≠ 0 then value ||| 0xffffff00#32 else value &&& 0xff#32
  | OP_LBU => .load tmp .byte i.rt fun value => value &&& 0xff#32
  | OP_LH =>
    if tmp &&& 1#32 ≠ 0 then .raise .AddressErrorException tmp
    else .load tmp .short i.rt fun value =>
      if value &&& 0x8000#32 ≠ 0 then value ||| 0xffff0000#32 else value &&& 0xffff#32
  | OP_LHU =>
    if tmp &&& 1#32 ≠ 0 then .raise .AddressErrorException tmp
    else .load tmp .short i.rt fun value => value &&& 0xffff#32
  | OP_LUI => .set [(i.rt, i.extra <<< 16)] pcAfter
  | OP_LW =>
    if tmp &&& 3#32 ≠ 0 then .raise .AddressErrorException tmp
    else .load tmp .word i.rt id
  | OP_LWL =>
    if tmp &&& 3#32 = 0 then .load tmp .word i.rt (loadLeft (tmp &&& 3#32) (forwarded r i.rt))
    else .stop
  | OP_LWR =>
    if tmp &&& 3#32 = 0 then .load tmp .word i.rt (loadRight (tmp &&& 3#32) (forwarded r i.rt))
    else .stop
  | OP_MFHI => .set [(i.rd, r HiReg)] pcAfter
  | OP_MFLO => .set [(i.rd, r LoReg)] pcAfter
  | OP_MTHI => .set [(HiReg, rs)] pcAfter
  | OP_MTLO => .set [(LoReg, rs)] pcAfter
  | OP_MULT => .set [(HiReg, (Mult rs rt true).1), (LoReg, (Mult rs rt true).2)] pcAfter
  | OP_MULTU => .set [(HiReg, (Mult rs rt false).1), (LoReg, (Mult rs rt false).2)] pcAfter
  | OP_NOR => .set [(i.rd, ~~~(rs ||| rt))] pcAfter
  | OP_OR => .set [(i.rd, rs ||| rs)] pcAfter
  | OP_ORI => .set [(i.rt, rs ||| (i.extra &&& 0xffff#32))] pcAfter
  | OP_SB => .store tmp .byte rt
  | OP_SH => .store tmp .short rt
  | OP_SLL => .set [(i.rd, rt <<< i.extra.toNat)] pcAfter
  | OP_SLLV => .set [(i.rd, rt <<< (rs &&& 0x1f#32).toNat)] pcAfter
  | OP_SLT => .set [(i.rd, if rs.slt rt then 1 else 0)] pcAfter
  | OP_SLTI => .set [(i.rt, if rs.slt i.extra then 1 else 0)] pcAfter
  | OP_SLTIU => .set [(i.rt, if rs < i.extra then 1 else 0)] pcAfter
  | OP_SLTU => .set [(i.rd, if rs < rt then 1 else 0)] pcAfter
  | OP_SRA => .set [(i.rd, rt.sshiftRight i.extra.toNat)] pcAfter
  | OP_SRAV => .set [(i.rd, rt.sshiftRight (rs &&& 0x1f#32).toNat)] pcAfter
  | OP_SRL => .set [(i.rd, rt.sshiftRight i.extra.toNat)] pcAfter
  | OP_SRLV => .set [(i.rd, rt.sshiftRight (rs &&& 0x1f#32).toNat)] pcAfter
  | OP_SUB =>
    let diff := rs - rt
    if (rs ^^^ rt) &&& SIGN_BIT ≠ 0 ∧ (rs ^^^ diff) &&& SIGN_BIT ≠ 0 then .raise .OverflowException 0
    else .set [(i.rd, diff)] pcAfter
  | OP_SUBU => .set [(i.rd, rs - rt)] pcAfter
  | OP_SW => .store tmp .word rt
  | OP_SWL =>
    if tmp &&& 3#32 = 0 then .merge (tmp &&& ~~~3#32) (storeLeft (tmp &&& 3#32) rt) else .stop
  | OP_SWR =>
    if tmp &&& 3#32 = 0 then .merge (tmp &&& ~~~3#32) (storeRight (tmp &&& 3#32) rt) else .stop
  | OP_SYSCALL => .raise .SyscallException 0
  | OP_XOR => .set [(i.rd, rs ^^^ rt)] pcAfter
  | OP_XORI => .set [(i.rt, rs ^^^ (i.extra &&& 0xffff#32))] pcAfter
  | OP_RES => .raise .IllegalInstrException 0
  | OP_UNIMP => .raise .IllegalInstrException 0

end Nachos.Machine

import Nachos.Machine.Processor

/-!
# The simulated processor: loads on their way

An instruction that traps is started again with the pending load done. What it does is the same
unless it looks at the register of the load, or sets it (`Hazard`): compilers for this processor
put no such instruction after a load.
-/

namespace Nachos.Machine

open OpCode

/-! ### What an instruction reads and sets -/

namespace Instruction

/-- The general registers that the switch reads. What `LWL` and `LWR` merge with is forwarded. -/
def reads (i : Instruction) : List Nat :=
  match i.opCode with
  | OP_ADD | OP_ADDU | OP_AND | OP_BEQ | OP_BNE | OP_DIV | OP_DIVU | OP_MULT | OP_MULTU | OP_NOR
  | OP_SB | OP_SH | OP_SW | OP_SWL | OP_SWR | OP_SLLV | OP_SLT | OP_SLTU | OP_SRAV | OP_SRLV
  | OP_SUB | OP_SUBU | OP_XOR => [i.rs, i.rt]
  | OP_SLL | OP_SRA | OP_SRL => [i.rt]
  | OP_J | OP_JAL | OP_LUI | OP_MFHI | OP_MFLO | OP_SYSCALL | OP_UNIMP | OP_RES => []
  | _ => [i.rs]

/-- The general registers that the switch sets at once. -/
def writes (i : Instruction) : List Nat :=
  match i.opCode with
  | OP_ADD | OP_ADDU | OP_AND | OP_JALR | OP_MFHI | OP_MFLO | OP_NOR | OP_OR | OP_SLL | OP_SLLV
  | OP_SLT | OP_SLTU | OP_SRA | OP_SRAV | OP_SRL | OP_SRLV | OP_SUB | OP_SUBU | OP_XOR => [i.rd]
  | OP_ADDI | OP_ADDIU | OP_ANDI | OP_LUI | OP_ORI | OP_SLTI | OP_SLTIU | OP_XORI => [i.rt]
  | OP_BGEZAL | OP_BLTZAL | OP_JAL => [R31]
  | _ => []

/-- The instruction merges what it loads with what `rt` will be. -/
def Merges (i : Instruction) : Prop := i.opCode = OP_LWL ∨ i.opCode = OP_LWR

/-- The numbers of registers have five bits. -/
structure InFile (i : Instruction) : Prop where
  rs : i.rs < NumGPRegs
  rt : i.rt < NumGPRegs
  rd : i.rd < NumGPRegs

variable {i : Instruction}

theorem InFile.reads (h : i.InFile) {x : Nat} (hx : x ∈ i.reads) : x < NumGPRegs := by
  have hcases : x = i.rs ∨ x = i.rt := by
    unfold Instruction.reads at hx
    split at hx <;> simp at hx <;> simp [hx]
  rcases hcases with rfl | rfl
  · exact h.rs
  · exact h.rt

theorem InFile.writes (h : i.InFile) {x : Nat} (hx : x ∈ i.writes) : x < NumGPRegs := by
  have hcases : x = i.rd ∨ x = i.rt ∨ x = R31 := by
    unfold Instruction.writes at hx
    split at hx <;> simp at hx <;> simp [hx]
  rcases hcases with rfl | rfl | rfl
  · exact h.rd
  · exact h.rt
  · decide

end Instruction

theorem decode_inFile (value : Word) : (Decode value).InFile := by
  have hfive : ∀ x : Word, (x &&& 0x1f#32).toNat < NumGPRegs := by
    intro x
    have hand : (x &&& 0x1f#32).toNat ≤ 31 := by
      rw [BitVec.toNat_and]
      exact Nat.and_le_right
    exact Nat.lt_succ_of_le hand
  exact ⟨hfive _, hfive _, hfive _⟩

/-- The registers that the switch looks at are the same. -/
structure SameInputs (i : Instruction) (r r' : Registers) : Prop where
  read : ∀ x ∈ i.reads, r' x = r x
  next : r' NextPCReg = r NextPCReg
  hi : r' HiReg = r HiReg
  lo : r' LoReg = r LoReg
  forwarded : i.Merges → forwarded r' i.rt = forwarded r i.rt

section

variable {i : Instruction} {r r' : Registers}

/-- **The switch does the same** where its registers are the same. -/
theorem execute_congr (h : SameInputs i r r') : execute i r' = execute i r := by
  obtain ⟨hread, hnext, hhi, hlo, hforwarded⟩ := h
  obtain ⟨opCode, rs, rt, rd, extra⟩ := i
  -- one case for each operation: its reads are rewritten
  cases opCode with
  | OP_LWL =>
    simp only [Instruction.reads, List.mem_singleton, forall_eq] at hread
    simp only [execute, hread, hforwarded (.inl rfl)]
  | OP_LWR =>
    simp only [Instruction.reads, List.mem_singleton, forall_eq] at hread
    simp only [execute, hread, hforwarded (.inr rfl)]
  | _ =>
    simp only [Instruction.reads, List.mem_cons, List.not_mem_nil, or_false, forall_eq_or_imp,
      forall_eq, IsEmpty.forall_iff, implies_true] at hread
    simp only [execute, apply, List.foldl_cons, List.foldl_nil, Function.update_apply, hread, hnext,
      hhi, hlo]

/-- The action sets and loads the registers of the instruction, and raises no page fault of its
own. -/
def Action.Within (i : Instruction) : Action → Prop
  | .set updates _ => ∀ u ∈ updates, u.1 ∈ i.writes ∨ u.1 = HiReg ∨ u.1 = LoReg
  | .load _ _ rt _ => rt = i.rt
  | .raise which _ => which ≠ .PageFaultException
  | _ => True

theorem execute_within (i : Instruction) (r : Registers) : (execute i r).Within i := by
  obtain ⟨opCode, rs, rt, rd, extra⟩ := i
  cases opCode <;> simp only [execute] <;> (try split) <;>
    simp [Action.Within, Instruction.writes]

/-! ### Registers -/

theorem apply_congr {updates : List (Nat × Word)} {x : Nat} (h : r' x = r x) :
    apply updates r' x = apply updates r x := by
  induction updates generalizing r r' with
  | nil => exact h
  | cons u updates ih =>
    refine ih ?_
    show Function.update r' u.1 u.2 x = Function.update r u.1 u.2 x
    rw [Function.update_apply, Function.update_apply, h]

theorem apply_of_notMem {updates : List (Nat × Word)} {x : Nat} (h : ∀ u ∈ updates, u.1 ≠ x) :
    apply updates r x = r x := by
  induction updates generalizing r with
  | nil => rfl
  | cons u updates ih =>
    have hx : x ≠ u.1 := fun heq => h u (List.mem_cons_self ..) heq.symm
    have hrest : apply updates (Function.update r u.1 u.2) x = Function.update r u.1 u.2 x :=
      ih fun v hv => h v (List.mem_cons_of_mem _ hv)
    exact hrest.trans (Function.update_of_ne hx _ _)

theorem delayedLoad_apply (n : Nat) (v : Word) (x : Nat) : DelayedLoad r n v x =
    if x = 0 then 0 else if x = LoadValueReg then v else if x = LoadReg then BitVec.ofNat 32 n
    else if x = (r LoadReg).toNat then r LoadValueReg else r x := by
  simp only [DelayedLoad, Function.update_apply]

theorem advance_apply (n : Nat) (v pcAfter : Word) (x : Nat) (h : (r LoadReg).toNat < NumGPRegs) :
    advance r n v pcAfter x =
      if x = NextPCReg then pcAfter else if x = PCReg then r NextPCReg
      else if x = PrevPCReg then r PCReg else DelayedLoad r n v x := by
  have hne : ∀ k, NumGPRegs ≤ k → k ≠ LoadReg → k ≠ LoadValueReg → DelayedLoad r n v k = r k := by
    intro k hk hload hvalue
    have hpos : NumGPRegs = 32 := rfl
    rw [delayedLoad_apply, if_neg (by omega), if_neg hvalue, if_neg hload, if_neg (by omega)]
  have hnext := hne NextPCReg (by decide) (by decide) (by decide)
  have hpc := hne PCReg (by decide) (by decide) (by decide)
  simp only [advance, Function.update_apply]
  by_cases h1 : x = NextPCReg
  · rw [if_pos h1, if_pos h1]
  · rw [if_neg h1, if_neg h1]
    by_cases h2 : x = PCReg
    · rw [if_pos h2, if_pos h2, if_neg (by decide), hnext]
    · rw [if_neg h2, if_neg h2, hpc]

/-- Register 0 is zero, and the pending load is of a general register. -/
structure Calm (r : Registers) : Prop where
  zero : r 0 = 0
  pending : (r LoadReg).toNat < NumGPRegs

theorem Calm.delayedLoad (n : Nat) (v : Word) (hn : n < NumGPRegs) : Calm (DelayedLoad r n v) := by
  refine ⟨?_, ?_⟩
  · rw [delayedLoad_apply, if_pos rfl]
  · rw [delayedLoad_apply, if_neg (by decide), if_neg (by decide), if_pos rfl, BitVec.toNat_ofNat]
    have hpos : NumGPRegs = 32 := rfl
    omega

theorem Calm.advance (h : (r LoadReg).toNat < NumGPRegs) (n : Nat) (v pcAfter : Word)
    (hn : n < NumGPRegs) : Calm (advance r n v pcAfter) := by
  have hcalm := Calm.delayedLoad (r := r) n v hn
  refine ⟨?_, ?_⟩
  · rw [advance_apply _ _ _ _ h, if_neg (by decide), if_neg (by decide), if_neg (by decide)]
    exact hcalm.zero
  · rw [advance_apply _ _ _ _ h, if_neg (by decide), if_neg (by decide), if_neg (by decide)]
    exact hcalm.pending

/-- The updates of an instruction leave the pending load alone. -/
theorem apply_special {i : Instruction} (hi : i.InFile) {updates : List (Nat × Word)}
    (hupdates : ∀ u ∈ updates, u.1 ∈ i.writes ∨ u.1 = HiReg ∨ u.1 = LoReg) {x : Nat}
    (hx : LoReg < x) : apply updates r x = r x := by
  refine apply_of_notMem fun u hu => ?_
  have hlo : LoReg = 33 := rfl
  have hhi : HiReg = 32 := rfl
  have hgp : NumGPRegs = 32 := rfl
  rcases hupdates u hu with hw | hw | hw
  · have := hi.writes hw
    omega
  · omega
  · omega

end

/-! ### Registers that show others -/

/-- The same but for the address of the last exception. -/
def Like (q r : Registers) : Prop := ∀ x, x ≠ BadVAddrReg → r x = q x

/-- The registers after a trap that the program does not see. -/
def early (q : Registers) : Registers := DelayedLoad q 0 0

/-- The registers of the machine: those of the program, with the pending load done or not. -/
def Shows (q r : Registers) : Prop := Like q r ∨ Like (early q) r

/-- The instruction looks at the register of the pending load, or sets it. A load to register 0
changes nothing, but `LWL` and `LWR` merge with it. -/
def Hazard (q : Registers) (i : Instruction) : Prop :=
  if (q LoadReg).toNat = 0 then i.Merges ∧ i.rt = 0 ∧ q LoadValueReg ≠ 0
  else (q LoadReg).toNat ∈ i.reads ∨ (q LoadReg).toNat ∈ i.writes

section

variable {q r : Registers} {i : Instruction}

theorem early_load : early q LoadReg = 0 := by
  rw [early, delayedLoad_apply]
  rfl

theorem early_value : early q LoadValueReg = 0 := by
  rw [early, delayedLoad_apply]
  rfl

theorem early_apply (hq : Calm q) {x : Nat} (hx : x ≠ LoadReg) (hx' : x ≠ LoadValueReg)
    (hp : (q LoadReg).toNat = 0 ∨ x ≠ (q LoadReg).toNat) : early q x = q x := by
  rw [early, delayedLoad_apply]
  by_cases h0 : x = 0
  · rw [if_pos h0, h0, hq.zero]
  · rw [if_neg h0, if_neg hx', if_neg hx, if_neg]
    rcases hp with hp | hp
    · rwa [hp]
    · exact hp

/-- Other registers than those of the pending load are the same. -/
theorem Shows.apply_eq (h : Shows q r) (hq : Calm q) {x : Nat} (hbad : x ≠ BadVAddrReg)
    (hx : x ≠ LoadReg) (hx' : x ≠ LoadValueReg)
    (hp : (q LoadReg).toNat = 0 ∨ x ≠ (q LoadReg).toNat) : r x = q x := by
  rcases h with h | h
  · exact h x hbad
  · exact (h x hbad).trans (early_apply hq hx hx' hp)

theorem Shows.special (h : Shows q r) (hq : Calm q) {x : Nat} (hgp : NumGPRegs ≤ x)
    (hx : x < LoadReg) : r x = q x := by
  have hpending := hq.pending
  have hload : LoadReg = 37 := rfl
  have hvalue : LoadValueReg = 38 := rfl
  have hbad : BadVAddrReg = 39 := rfl
  exact h.apply_eq hq (by omega) (by omega) (by omega) (.inr (by omega))

/-- The load that is pending in the machine, if the trap has not done it. -/
theorem Shows.pending (h : Shows q r) (hq : Calm q) : (r LoadReg).toNat < NumGPRegs := by
  rcases h with h | h
  · rw [h LoadReg (by decide)]
    exact hq.pending
  · rw [h LoadReg (by decide), early_load]
    decide

/-- **Without a hazard**, the switch reads the same. -/
theorem Shows.sameInputs (h : Shows q r) (hq : Calm q) (hi : i.InFile) (hsafe : ¬ Hazard q i) :
    SameInputs i q r := by
  have hgp : NumGPRegs = 32 := rfl
  have hload : LoadReg = 37 := rfl
  have hvalue : LoadValueReg = 38 := rfl
  have hbad : BadVAddrReg = 39 := rfl
  unfold Hazard at hsafe
  refine ⟨fun x hx => ?_, h.special hq (by decide) (by decide), h.special hq (by decide) (by decide),
    h.special hq (by decide) (by decide), fun hmerges => ?_⟩
  · have hlt := hi.reads hx
    refine h.apply_eq hq (by omega) (by omega) (by omega) ?_
    by_cases hp : (q LoadReg).toNat = 0
    · exact .inl hp
    · rw [if_neg hp] at hsafe
      refine .inr fun heq => hsafe (.inl ?_)
      rw [← heq]
      exact hx
  · have hlt := hi.rt
    rcases h with h | h
    · unfold forwarded
      rw [h LoadReg (by decide), h LoadValueReg (by decide), h i.rt (by omega)]
    · -- the load has been done: what was on its way is there
      have hreg : r LoadReg = 0 := (h LoadReg (by decide)).trans early_load
      have hval : r LoadValueReg = 0 := (h LoadValueReg (by decide)).trans early_value
      have hrt : r i.rt = early q i.rt := h i.rt (by omega)
      unfold forwarded
      rw [hreg, hval, hrt]
      by_cases h0 : i.rt = 0
      · rw [if_pos (by rw [h0]; rfl), h0]
        by_cases hp : (q LoadReg).toNat = 0
        · rw [if_pos hp] at hsafe ⊢
          by_contra hne
          exact hsafe ⟨hmerges, h0, fun heq => hne heq.symm⟩
        · rw [if_neg hp, hq.zero]
      · rw [if_neg (fun heq => h0 heq.symm)]
        by_cases hp : (q LoadReg).toNat = i.rt
        · rw [if_pos hp, early, delayedLoad_apply, if_neg h0, if_neg (by omega), if_neg (by omega),
            if_pos hp.symm]
        · rw [if_neg hp]
          exact early_apply hq (by omega) (by omega) (.inr fun heq => hp heq.symm)

/-- A trap does the pending load, wherever it is. -/
theorem Shows.trapped (h : Shows q r) (hq : Calm q) (badVAddr : Word) :
    Like (early q) (trapped r badVAddr) := by
  have hbadne : ∀ x, x ≠ BadVAddrReg → Function.update r BadVAddrReg badVAddr x = r x :=
    fun x hx => Function.update_of_ne hx _ _
  intro x hx
  have hpending := hq.pending
  have hgp : NumGPRegs = 32 := rfl
  have hload : LoadReg = 37 := rfl
  have hvalue : LoadValueReg = 38 := rfl
  have hbad : BadVAddrReg = 39 := rfl
  rw [Machine.trapped, early, delayedLoad_apply, delayedLoad_apply, hbadne _ hx,
    hbadne LoadReg (by decide), hbadne LoadValueReg (by decide)]
  by_cases h0 : x = 0
  · rw [if_pos h0, if_pos h0]
  · rw [if_neg h0, if_neg h0]
    by_cases h1 : x = LoadValueReg
    · rw [if_pos h1, if_pos h1]
    · rw [if_neg h1, if_neg h1]
      by_cases h2 : x = LoadReg
      · rw [if_pos h2, if_pos h2]
      · rw [if_neg h2, if_neg h2]
        rcases h with h | h
        · rw [h LoadReg (by decide), h LoadValueReg (by decide), h x hx]
        · have hreg : r LoadReg = 0 := (h LoadReg (by decide)).trans early_load
          have hzero : (0 : Word).toNat = 0 := rfl
          rw [hreg, hzero, if_neg h0, h x hx, early, delayedLoad_apply, if_neg h0, if_neg h1,
            if_neg h2]

/-- So does an interrupt. -/
theorem Shows.interrupted (h : Shows q r) (hq : Calm q) : Like (early q) (DelayedLoad r 0 0) := by
  have htrapped := h.trapped hq (r BadVAddrReg)
  rw [Machine.trapped, Function.update_eq_self] at htrapped
  exact htrapped

theorem Hazard.not_writes (hsafe : ¬ Hazard q i) (hp : (q LoadReg).toNat ≠ 0) :
    (q LoadReg).toNat ∉ i.writes := by
  unfold Hazard at hsafe
  rw [if_neg hp] at hsafe
  exact fun hmem => hsafe (.inr hmem)

/-- **Without a hazard**, the registers are the same when the instruction is done. -/
theorem Shows.advance (h : Shows q r) (hq : Calm q) (hi : i.InFile) (hsafe : ¬ Hazard q i)
    {updates : List (Nat × Word)}
    (hupdates : ∀ u ∈ updates, u.1 ∈ i.writes ∨ u.1 = HiReg ∨ u.1 = LoReg) (n : Nat)
    (v pcAfter : Word) :
    Like (advance (apply updates q) n v pcAfter) (advance (apply updates r) n v pcAfter) := by
  have hpending := hq.pending
  have hgp : NumGPRegs = 32 := rfl
  have hlo : LoReg = 33 := rfl
  have hhi : HiReg = 32 := rfl
  have hload : LoadReg = 37 := rfl
  have hvalue : LoadValueReg = 38 := rfl
  have hbad : BadVAddrReg = 39 := rfl
  have hspecial : ∀ x, LoReg < x → ∀ r : Registers, apply updates r x = r x :=
    fun x hx r => apply_special hi hupdates hx
  have hzero : (0 : Word).toNat = 0 := rfl
  have hrpending := h.pending hq
  have hqadvance : (apply updates q LoadReg).toNat < NumGPRegs := by
    rw [hspecial LoadReg (by omega)]
    exact hpending
  have hradvance : (apply updates r LoadReg).toNat < NumGPRegs := by
    rw [hspecial LoadReg (by omega)]
    exact hrpending
  intro x hx
  rw [advance_apply _ _ _ _ hqadvance, advance_apply _ _ _ _ hradvance]
  rw [hspecial NextPCReg (by decide), hspecial NextPCReg (by decide), hspecial PCReg (by decide),
    hspecial PCReg (by decide), h.special hq (x := NextPCReg) (by decide) (by decide),
    h.special hq (x := PCReg) (by decide) (by decide), delayedLoad_apply, delayedLoad_apply,
    hspecial LoadReg (by omega), hspecial LoadReg (by omega), hspecial LoadValueReg (by omega),
    hspecial LoadValueReg (by omega)]
  by_cases h0 : x = 0
  · rw [if_pos h0, if_pos h0]
  by_cases h1 : x = LoadValueReg
  · rw [if_pos h1, if_pos h1]
  by_cases h2 : x = LoadReg
  · rw [if_pos h2, if_pos h2]
  simp only [h0, h1, h2, if_false]
  congr 3
  rcases h with h | h
  · rw [h LoadReg (by decide), h LoadValueReg (by decide), apply_congr (h x hx)]
  · have hr0 : r LoadReg = 0 := (h LoadReg (by decide)).trans early_load
    rw [hr0, hzero, if_neg h0]
    by_cases hp : x = (q LoadReg).toNat
    · have hnot := Hazard.not_writes hsafe (hp ▸ h0)
      rw [if_pos hp, apply_of_notMem fun u hu heq => ?_, h x hx, early, delayedLoad_apply, if_neg h0,
        if_neg h1, if_neg h2, if_pos hp]
      rcases hupdates u hu with hw | hw | hw
      · rw [heq, hp] at hw
        exact hnot hw
      · omega
      · omega
    · rw [if_neg hp]
      refine apply_congr ((h x hx).trans (early_apply hq h2 h1 (.inr hp)))

end

end Nachos.Machine

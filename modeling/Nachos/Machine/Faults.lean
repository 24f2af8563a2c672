import Nachos.Lib.Path
import Nachos.Machine.Hazards

/-!
# The simulated processor: page faults do not show

A page may be missing from the TLB at any fetch, load or store. The kernel brings it in and the
instruction is started again. A program without hazards runs as on the memory that it sees: the
same instructions, the same registers, the same system calls.

Here the memory and the kernel are any two that keep what the program sees (`Simulates`, and the
relations `fault` and `switch` of `UserStep`).
-/

namespace Nachos.Machine

open Lib

/-! ### An instruction over two memories -/

/-- What one memory answers, the other one does, but for page faults. -/
structure Simulates {μ ν : Type} (M : Memory μ) (N : Memory ν) (V : μ → ν → Prop) : Prop where
  read : ∀ {m m' f a size v}, V m f → M.ReadMem m a size = .ok (m', v) →
    N.ReadMem f a size = .ok (f, v) ∧ V m' f
  readTrap : ∀ {m f a size which}, V m f → M.ReadMem m a size = .error which →
    which ≠ .PageFaultException → N.ReadMem f a size = .error which
  write : ∀ {m m' f a size v}, V m f → M.WriteMem m a size v = .ok m' →
    ∃ f', N.WriteMem f a size v = .ok f' ∧ V m' f'
  writeTrap : ∀ {m f a size v which}, V m f → M.WriteMem m a size v = .error which →
    which ≠ .PageFaultException → N.WriteMem f a size v = .error which

section

variable {μ ν : Type} {M : Memory μ} {N : Memory ν} {V : μ → ν → Prop}

/-- How an instruction of the machine ends, beside that of the program. -/
inductive Agrees (V : μ → ν → Prop) (q : Registers) (f : ν) : Outcome μ → Outcome ν → Prop where
  | done {q' r' : Registers} {m' : μ} {f' : ν} (hcalm : Calm q') (hlike : Like q' r')
      (hview : V m' f') : Agrees V q f (.done r' m') (.done q' f')
  | fault {r' : Registers} {m' : μ} {o : Outcome ν} (hlike : Like (early q) r')
      (hview : V m' f) : Agrees V q f (.trap .PageFaultException r' m') o
  | trap {which : ExceptionType} {q' r' : Registers} {m' : μ}
      (hwhich : which ≠ .PageFaultException) (hlike : Like q' r') (hview : V m' f) :
      Agrees V q f (.trap which r' m') (.trap which q' f)
  | stopped : Agrees V q f .stopped .stopped

variable {q r : Registers} {m : μ} {f : ν} {i : Instruction}

/-- A trap, of the machine alone or of both. -/
theorem Agrees.of_trap (hq : Calm q) (hshows : Shows q r) (hview : V m f)
    {which : ExceptionType} (badVAddr : Word) {o : Outcome ν}
    (ho : which ≠ .PageFaultException → o = .trap which (trapped q badVAddr) f) :
    Agrees V q f (.trap which (trapped r badVAddr) m) o := by
  have hlike := hshows.trapped hq badVAddr
  by_cases hwhich : which = .PageFaultException
  · subst hwhich
    exact .fault hlike hview
  · rw [ho hwhich]
    have hself : Like (early q) (trapped q badVAddr) := Shows.trapped (.inl fun _ _ => rfl) hq badVAddr
    exact .trap hwhich (fun x hx => (hlike x hx).trans (hself x hx).symm) hview

theorem carryOut_agrees (hsim : Simulates M N V) (hview : V m f) (hq : Calm q) (hshows : Shows q r)
    (hi : i.InFile) (hsafe : ¬ Hazard q i) {action : Action} (hwithin : action.Within i) :
    Agrees V q f (carryOut M r m action) (carryOut N q f action) := by
  have hnext : r NextPCReg = q NextPCReg := hshows.special hq (by decide) (by decide)
  have hdone : ∀ (updates : List (Nat × Word)),
      (∀ u ∈ updates, u.1 ∈ i.writes ∨ u.1 = HiReg ∨ u.1 = LoReg) → ∀ (n : Nat) (v pcAfter : Word)
      {m' : μ} {f' : ν}, n < NumGPRegs → V m' f' →
      Agrees V q f (.done (advance (apply updates r) n v pcAfter) m')
        (.done (advance (apply updates q) n v pcAfter) f') := by
    intro updates hupdates n v pcAfter m' f' hn hview'
    refine .done (Calm.advance ?_ n v pcAfter hn) (hshows.advance hq hi hsafe hupdates n v pcAfter)
      hview'
    rw [apply_special hi hupdates (by decide)]
    exact hq.pending
  cases action with
  | set updates pcAfter => exact hdone updates hwithin 0 0 pcAfter (by decide) hview
  | load addr size rt value =>
    obtain rfl : rt = i.rt := hwithin
    cases hread : M.ReadMem m addr size with
    | ok res =>
      obtain ⟨hflat, hview'⟩ := hsim.read hview hread
      simp only [carryOut, hread, hflat, hnext]
      exact hdone [] (by simp) i.rt _ _ hi.rt hview'
    | error which =>
      simp only [carryOut, hread]
      refine Agrees.of_trap hq hshows hview addr fun hwhich => ?_
      simp only [hsim.readTrap hview hread hwhich]
  | store addr size value =>
    cases hwrite : M.WriteMem m addr size value with
    | ok m' =>
      obtain ⟨f', hflat, hview'⟩ := hsim.write hview hwrite
      simp only [carryOut, hwrite, hflat, hnext]
      exact hdone [] (by simp) 0 0 _ (by decide) hview'
    | error which =>
      simp only [carryOut, hwrite]
      refine Agrees.of_trap hq hshows hview addr fun hwhich => ?_
      simp only [hsim.writeTrap hview hwrite hwhich]
  | merge addr value =>
    cases hread : M.ReadMem m addr .word with
    | ok res =>
      obtain ⟨hflat, hview'⟩ := hsim.read hview hread
      cases hwrite : M.WriteMem res.1 addr .word (value res.2) with
      | ok m' =>
        obtain ⟨f', hflat', hview''⟩ := hsim.write hview' hwrite
        simp only [carryOut, hread, hflat, hwrite, hflat', hnext]
        exact hdone [] (by simp) 0 0 _ (by decide) hview''
      | error which =>
        simp only [carryOut, hread, hflat, hwrite]
        refine Agrees.of_trap hq hshows hview' addr fun hwhich => ?_
        simp only [hsim.writeTrap hview' hwrite hwhich]
    | error which =>
      simp only [carryOut, hread]
      refine Agrees.of_trap hq hshows hview addr fun hwhich => ?_
      simp only [hsim.readTrap hview hread hwhich]
  | raise which badVAddr => exact Agrees.of_trap hq hshows hview badVAddr fun _ => rfl
  | stop => exact .stopped

/-- The instruction that the program comes to has no hazard. -/
def Safe (N : Memory ν) (q : Registers) (f : ν) : Prop :=
  ∀ f' raw, N.ReadMem f (q PCReg) .word = .ok (f', raw) → ¬ Hazard q (Decode raw)

/-- **One instruction** of the machine ends as that of the program, or with a page fault. -/
theorem oneInstruction_agrees (hsim : Simulates M N V) (hview : V m f) (hq : Calm q)
    (hshows : Shows q r) (hsafe : Safe N q f) :
    Agrees V q f (OneInstruction M r m) (OneInstruction N q f) := by
  have hpc : r PCReg = q PCReg := hshows.special hq (by decide) (by decide)
  unfold OneInstruction
  rw [hpc]
  cases hread : M.ReadMem m (q PCReg) .word with
  | ok res =>
    obtain ⟨hflat, hview'⟩ := hsim.read hview hread
    have hsafe' := hsafe f res.2 hflat
    have hi := decode_inFile res.2
    simp only [hflat]
    rw [execute_congr (hshows.sameInputs hq hi hsafe')]
    exact carryOut_agrees hsim hview' hq hshows hi hsafe' (execute_within _ _)
  | error which =>
    refine Agrees.of_trap hq hshows hview _ fun hwhich => ?_
    simp only [hsim.readTrap hview hread hwhich]

/-! ### The address of a fault -/

/-- The access to the address in `BadVAddrReg` is a page fault. -/
def Faulted (M : Memory μ) (r : Registers) (m : μ) : Prop :=
  (∃ size, M.ReadMem m (r BadVAddrReg) size = .error .PageFaultException) ∨
    ∃ size v, M.WriteMem m (r BadVAddrReg) size v = .error .PageFaultException

theorem trapped_badVAddr (hr : (r LoadReg).toNat < NumGPRegs) (badVAddr : Word) :
    trapped r badVAddr BadVAddrReg = badVAddr := by
  have hgp : NumGPRegs = 32 := rfl
  have hload : Function.update r BadVAddrReg badVAddr LoadReg = r LoadReg :=
    Function.update_of_ne (by decide) _ _
  have hbad : BadVAddrReg = 39 := rfl
  rw [trapped, delayedLoad_apply, if_neg (by decide), if_neg (by decide), if_neg (by decide), hload,
    if_neg (by omega)]
  exact Function.update_self ..

/-- `ExceptionHandler` finds the address of the access that faulted. -/
theorem carryOut_faulted (hr : (r LoadReg).toNat < NumGPRegs) {action : Action}
    (hwithin : action.Within i) {r' : Registers} {m' : μ}
    (h : carryOut M r m action = .trap .PageFaultException r' m') : Faulted M r' m' := by
  have hbad := trapped_badVAddr hr
  cases action with
  | set updates pcAfter => cases h
  | load addr size rt value =>
    cases hread : M.ReadMem m addr size with
    | ok res => simp [carryOut, hread] at h
    | error which =>
      simp only [carryOut, hread] at h
      cases h
      exact .inl ⟨size, by rw [hbad, hread]⟩
  | store addr size value =>
    cases hwrite : M.WriteMem m addr size value with
    | ok m' => simp [carryOut, hwrite] at h
    | error which =>
      simp only [carryOut, hwrite] at h
      cases h
      exact .inr ⟨size, value, by rw [hbad, hwrite]⟩
  | merge addr value =>
    cases hread : M.ReadMem m addr .word with
    | ok res =>
      cases hwrite : M.WriteMem res.1 addr .word (value res.2) with
      | ok m' => simp [carryOut, hread, hwrite] at h
      | error which =>
        simp only [carryOut, hread, hwrite] at h
        cases h
        exact .inr ⟨.word, value res.2, by rw [hbad, hwrite]⟩
    | error which =>
      simp only [carryOut, hread] at h
      cases h
      exact .inl ⟨.word, by rw [hbad, hread]⟩
  | raise which badVAddr =>
    cases h
    exact absurd rfl hwithin
  | stop => cases h

theorem oneInstruction_faulted (hr : (r LoadReg).toNat < NumGPRegs) {r' : Registers} {m' : μ}
    (h : OneInstruction M r m = .trap .PageFaultException r' m') : Faulted M r' m' := by
  unfold OneInstruction at h
  cases hread : M.ReadMem m (r PCReg) .word with
  | ok res =>
    simp only [hread] at h
    exact carryOut_faulted hr (execute_within _ _) h
  | error which =>
    simp only [hread] at h
    cases h
    exact .inl ⟨.word, by rw [trapped_badVAddr hr, hread]⟩

/-! ### Runs -/

inductive Event where
  | instruction
  | fault
  | interrupt
  deriving DecidableEq

/-- The machine in user mode: an instruction is done, a page fault is handled, or there are
interrupts between two instructions. `CheckIfDue` does the pending load, and then other threads may
run, after which the registers are restored. `fault` is what the kernel does to memory, given the
registers. -/
inductive UserStep (M : Memory μ) (fault : Registers → μ → μ → Prop) (switch : μ → μ → Prop) :
    Registers × μ → Event → Registers × μ → Prop where
  | instruction {r r' : Registers} {m m' : μ} (h : OneInstruction M r m = .done r' m') :
      UserStep M fault switch (r, m) .instruction (r', m')
  | fault {r r' : Registers} {m m' m'' : μ}
      (h : OneInstruction M r m = .trap .PageFaultException r' m') (hfault : fault r' m' m'') :
      UserStep M fault switch (r, m) .fault (r', m'')
  | interrupt {r : Registers} {m m' : μ} (h : m' = m ∨ switch m m') :
      UserStep M fault switch (r, m) .interrupt (DelayedLoad r 0 0, m')

/-- The program by itself. -/
def FlatStep (N : Memory ν) (s : Registers × ν) (_ : Event) (s' : Registers × ν) : Prop :=
  OneInstruction N s.1 s.2 = .done s'.1 s'.2

/-- The machine shows the program's state. -/
structure Running (V : μ → ν → Prop) (s : Registers × μ) (t : Registers × ν) : Prop where
  view : V s.2 t.2
  calm : Calm t.1
  shows : Shows t.1 s.1

variable {fault : Registers → μ → μ → Prop} {switch : μ → μ → Prop}

/-- What the kernel does while the program waits leaves what the program sees. -/
structure Unseen (M : Memory μ) (V : μ → ν → Prop) (fault : Registers → μ → μ → Prop)
    (switch : μ → μ → Prop) : Prop where
  fault : ∀ {r m m' f}, V m f → Faulted M r m → fault r m m' → V m' f
  switch : ∀ {m m' f}, V m f → switch m m' → V m' f

/-- A step of the machine is one of the program, or none. -/
theorem Running.step (hsim : Simulates M N V) (hunseen : Unseen M V fault switch)
    {s s' : Registers × μ} {t : Registers × ν} {e : Event} (h : Running V s t)
    (hsafe : Safe N t.1 t.2) (hstep : UserStep M fault switch s e s') :
    (e ≠ .instruction ∧ Running V s' t) ∨
      (e = .instruction ∧ ∃ t', FlatStep N t e t' ∧ Running V s' t') := by
  have hagrees := oneInstruction_agrees hsim h.view h.calm h.shows hsafe
  cases hstep with
  | instruction hdone =>
    rw [hdone] at hagrees
    generalize ho : OneInstruction N t.1 t.2 = o at hagrees
    cases hagrees with
    | done hcalm hlike hview => exact .inr ⟨rfl, (_, _), ho, ⟨hview, hcalm, .inl hlike⟩⟩
  | fault htrap hhandled =>
    have hfaulted := oneInstruction_faulted (h.shows.pending h.calm) htrap
    rw [htrap] at hagrees
    generalize OneInstruction N t.1 t.2 = o at hagrees
    cases hagrees with
    | fault hlike hview =>
      exact .inl ⟨by decide, hunseen.fault hview hfaulted hhandled, h.calm, .inr hlike⟩
    | trap hwhich _ _ => exact absurd rfl hwhich
  | interrupt hswitch =>
    refine .inl ⟨by decide, ?_, h.calm, .inr (h.shows.interrupted h.calm)⟩
    rcases hswitch with rfl | hswitch
    · exact h.view
    · exact hunseen.switch h.view hswitch

/-- **A run of the machine** is one of the program, without the faults and the interrupts. -/
theorem Running.run (hsim : Simulates M N V) (hunseen : Unseen M V fault switch)
    {s s' : Registers × μ} {t : Registers × ν} {l : List Event}
    (hpath : Path (UserStep M fault switch) s l s') (h : Running V s t)
    (hsafe : ∀ l t', Path (FlatStep N) t l t' → Safe N t'.1 t'.2) :
    ∃ t', Path (FlatStep N) t (l.filter (· = .instruction)) t' ∧ Running V s' t' := by
  induction hpath generalizing t with
  | nil s => exact ⟨t, .nil t, h⟩
  | cons hstep _ ih =>
    rcases h.step hsim hunseen (hsafe [] t (.nil t)) hstep with ⟨hne, h'⟩ | ⟨rfl, t₁, ht₁, h'⟩
    · obtain ⟨t', ht', hrunning⟩ := ih h' hsafe
      rw [List.filter_cons_of_neg (by simpa using hne)]
      exact ⟨t', ht', hrunning⟩
    · obtain ⟨t', ht', hrunning⟩ := ih h' fun l t' hl => hsafe _ t' (.cons ht₁ hl)
      exact ⟨t', .cons ht₁ ht', hrunning⟩

/-- Another trap than a page fault is the program's. -/
theorem Running.trap (hsim : Simulates M N V) {s : Registers × μ} {t : Registers × ν}
    (h : Running V s t) (hsafe : Safe N t.1 t.2) {which : ExceptionType} {r : Registers} {m : μ}
    (htrap : OneInstruction M s.1 s.2 = .trap which r m) (hwhich : which ≠ .PageFaultException) :
    ∃ q, OneInstruction N t.1 t.2 = .trap which q t.2 ∧ Like q r ∧ V m t.2 := by
  have hagrees := oneInstruction_agrees hsim h.view h.calm h.shows hsafe
  rw [htrap] at hagrees
  generalize OneInstruction N t.1 t.2 = o at hagrees ⊢
  cases hagrees with
  | fault _ _ => exact absurd rfl hwhich
  | trap _ hlike hview => exact ⟨_, rfl, hlike, hview⟩

end

end Nachos.Machine

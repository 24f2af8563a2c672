import Nachos.Threads.Lists

/-!
# The simulated processor: interrupts and time

`machine/interrupt.cc`: the interrupts that the devices will cause are in a list, sorted by their
time; the list is one in the mathematical sense, as `lists_refine` allows. Time advances when
interrupts are enabled, when a user instruction is executed, and when no thread is ready; then the
handlers of the interrupts that are due are called.

A handler may schedule interrupts and ask for a context switch. What else it does, to the rest of
the machine (`σ`), is a parameter. It finds interrupts disabled, and leaves them so.

An interrupt that is looked at too early is put back behind others of the same time, so these do not
keep their order. Interrupts of different times do (`fire_in_order`).

Times are exact numbers: the clock, `fromNow` and the sum of the two are taken to be below `2 ^ 63`,
where the `int64_t` of the source is the number.
-/

namespace Nachos.Interrupts

open Lib Nachos.Lists

inductive IntStatus where
  | IntOff | IntOn
  deriving DecidableEq

inductive MachineStatus where
  | IdleMode | SystemMode | UserMode
  deriving DecidableEq

inductive IntType where
  | TimerInt | DiskInt | ConsoleWriteInt | ConsoleReadInt | NetworkSendInt | NetworkRecvInt
  deriving DecidableEq

def UserTick : Int := 1

def SystemTick : Int := 10

/-- `class PendingInterrupt`: the handler with its argument, and the device. `when` is the key in
the list. -/
structure PendingInterrupt (α : Type*) where
  handler : α
  type : IntType

/-- What a handler asks of `Interrupt`. -/
inductive Ask (α : Type*) where
  | Schedule (handler : α) (fromNow : Int) (type : IntType)
  | YieldOnReturn

variable {σ α : Type*}

/-- `ASSERT(fromNow > 0)`. -/
def Ask.Allowed : Ask α → Prop
  | .Schedule _ fromNow _ => 0 < fromNow
  | .YieldOnReturn => True

/-- `class Interrupt`, with `stats` and the rest of the machine. `scheduled` and `fired` are
auxiliary: what was scheduled so far, and what was fired and at what time, the last first. -/
structure Interrupt (σ α : Type*) where
  level : IntStatus
  pending : List (Entry (PendingInterrupt α))
  inHandler : Bool
  yieldOnReturn : Bool
  status : MachineStatus
  totalTicks : Int
  idleTicks : Int
  systemTicks : Int
  userTicks : Int
  machine : σ
  scheduled : List (Entry (PendingInterrupt α))
  fired : List (Entry (PendingInterrupt α) × Int)

namespace Interrupt

/-- `Interrupt::Interrupt`, and `Statistics::Statistics`. -/
def new (machine : σ) : Interrupt σ α where
  level := .IntOff
  pending := []
  inHandler := false
  yieldOnReturn := false
  status := .SystemMode
  totalTicks := 0
  idleTicks := 0
  systemTicks := 0
  userTicks := 0
  machine := machine
  scheduled := []
  fired := []

def ChangeLevel (i : Interrupt σ α) (now : IntStatus) : Interrupt σ α := { i with level := now }

def setStatus (i : Interrupt σ α) (st : MachineStatus) : Interrupt σ α := { i with status := st }

def setMachine (i : Interrupt σ α) (machine : σ) : Interrupt σ α := { i with machine := machine }

def setPending (i : Interrupt σ α) (pending : List (Entry (PendingInterrupt α))) :
    Interrupt σ α := { i with pending := pending }

/-- `pending->SortedInsert(toOccur, when)`. -/
def SortedInsert (i : Interrupt σ α) (toOccur : Entry (PendingInterrupt α)) : Interrupt σ α :=
  i.setPending (answer i.pending (.SortedInsert toOccur.item toOccur.key)).1

/-- `Interrupt::Schedule`. -/
def Schedule (i : Interrupt σ α) (handler : α) (fromNow : Int) (type : IntType) :
    Option (Interrupt σ α) :=
  let toOccur : Entry (PendingInterrupt α) := ⟨⟨handler, type⟩, i.totalTicks + fromNow⟩
  if 0 < fromNow then some { i.SortedInsert toOccur with scheduled := toOccur :: i.scheduled }
  else none

/-- `Interrupt::YieldOnReturn`. -/
def YieldOnReturn (i : Interrupt σ α) : Option (Interrupt σ α) :=
  if i.inHandler then some { i with yieldOnReturn := true } else none

def ask (i : Interrupt σ α) : Ask α → Option (Interrupt σ α)
  | .Schedule handler fromNow type => i.Schedule handler fromNow type
  | .YieldOnReturn => i.YieldOnReturn

def asks (i : Interrupt σ α) : List (Ask α) → Option (Interrupt σ α)
  | [] => some i
  | q :: l => (i.ask q).bind (asks · l)

/-- The clock of `CheckIfDue`: it is not set back. -/
def advanceTo (i : Interrupt σ α) (time : Int) : Interrupt σ α :=
  if i.totalTicks < time then
    { i with totalTicks := time, idleTicks := i.idleTicks + (time - i.totalTicks) }
  else i

/-- The clock of `OneTick`. -/
def tick (i : Interrupt σ α) : Interrupt σ α :=
  if i.status = .SystemMode then
    { i with totalTicks := i.totalTicks + SystemTick, systemTicks := i.systemTicks + SystemTick }
  else { i with totalTicks := i.totalTicks + UserTick, userTicks := i.userTicks + UserTick }

/-- The handler is about to run. -/
def enter (i : Interrupt σ α) (toOccur : Entry (PendingInterrupt α)) (machine : σ) :
    Interrupt σ α :=
  { i with
    inHandler := true, status := .SystemMode, machine := machine
    fired := (toOccur, i.totalTicks) :: i.fired }

/-- The handler has run. -/
def leave (i : Interrupt σ α) (old : MachineStatus) : Interrupt σ α :=
  { i with status := old, inHandler := false }

variable (handle : α → Int → σ → σ × List (Ask α))

/-- The end of `CheckIfDue`: the handler is called. -/
def fire (i : Interrupt σ α) (toOccur : Entry (PendingInterrupt α)) : Option (Interrupt σ α) :=
  let res := handle toOccur.item.handler i.totalTicks i.machine
  ((i.enter toOccur res.1).asks res.2).map (·.leave i.status)

/-- `Interrupt::CheckIfDue`. -/
def CheckIfDue (i : Interrupt σ α) (advanceClock : Bool) : Option (Interrupt σ α × Bool) :=
  if i.level ≠ .IntOff then none
  else
    match i.pending with
    | [] => some (i, false)
    | toOccur :: rest =>
      if advanceClock = false ∧ i.totalTicks < toOccur.key then
        some ((i.setPending rest).SortedInsert toOccur, false)
      else
        -- Without `advanceClock` the interrupt is due here, and the clock stays.
        let i := (i.setPending rest).advanceTo toOccur.key
        if i.status = .IdleMode ∧ toOccur.item.type = .TimerInt ∧ rest.isEmpty then
          some (i.SortedInsert toOccur, false)
        else (i.fire handle toOccur).map (·, true)

/-- `while (CheckIfDue(FALSE)) ;`, for `n` turns at most. -/
def checkLoop : Nat → Interrupt σ α → Option (Interrupt σ α)
  | 0, _ => none
  | n + 1, i => (i.CheckIfDue handle false).bind fun res =>
    if res.2 then checkLoop n res.1 else some res.1

/-- `Interrupt::OneTick`, up to the call of `Yield`, and whether it is called. -/
def OneTick (n : Nat) (i : Interrupt σ α) : Option (Interrupt σ α × Bool) :=
  ((i.tick.ChangeLevel .IntOff).checkLoop handle n).map fun i =>
    let i := i.ChangeLevel .IntOn
    if i.yieldOnReturn then ({ i with yieldOnReturn := false, status := .SystemMode }, true)
    else (i, false)

/-- `Interrupt::SetLevel`. -/
def SetLevel (n : Nat) (i : Interrupt σ α) (now : IntStatus) : Option (Interrupt σ α × Bool) :=
  if now = .IntOff ∨ i.inHandler = false then
    if now = .IntOn ∧ i.level = .IntOff then (i.ChangeLevel now).OneTick handle n
    else some (i.ChangeLevel now, false)
  else none

/-- `Interrupt::Idle`, and whether the machine halts. -/
def Idle (n : Nat) (i : Interrupt σ α) : Option (Interrupt σ α × Bool) :=
  ((i.setStatus .IdleMode).CheckIfDue handle true).bind fun res =>
    if res.2 then
      (res.1.checkLoop handle n).map fun i =>
        ({ i with yieldOnReturn := false, status := .SystemMode }, false)
    else some (res.1, true)

end Interrupt

/-- What the kernel and the devices call outside of handlers. The status is also set by
`Machine::Run`, by `Machine::RaiseException` and by `OneTick` when `Yield` returns. -/
inductive Call (σ α : Type*) where
  | Schedule (handler : α) (fromNow : Int) (type : IntType)
  | SetLevel (now : IntStatus)
  | OneTick
  | Idle
  | setStatus (status : MachineStatus)
  | other (machine : σ)

variable (handle : α → Int → σ → σ × List (Ask α))

def Interrupt.serve (n : Nat) (i : Interrupt σ α) : Call σ α → Option (Interrupt σ α)
  | .Schedule handler fromNow type => i.Schedule handler fromNow type
  | .SetLevel now => (i.SetLevel handle n now).map Prod.fst
  | .OneTick => (i.OneTick handle n).map Prod.fst
  | .Idle => (i.Idle handle n).map Prod.fst
  | .setStatus status => some (i.setStatus status)
  | .other machine => some (i.setMachine machine)

def InterruptStep (i : Interrupt σ α) (c : Call σ α) (i' : Interrupt σ α) : Prop :=
  ∃ n, i.serve handle n c = some i'

/-! ### The order of the interrupts -/

variable {handle} {i i' : Interrupt σ α} {e : Entry (PendingInterrupt α)}
  {rest : List (Entry (PendingInterrupt α))} {n : Nat}

/-- What holds between any two calls. -/
structure Timely (i : Interrupt σ α) : Prop where
  /-- The list is sorted. -/
  inOrder : InOrder i.pending
  /-- No interrupt is fired before its time. -/
  notEarly : ∀ f ∈ i.fired, f.1.key ≤ f.2 ∧ f.2 ≤ i.totalTicks
  /-- They are fired in the order of their times. -/
  firedInOrder : i.fired.Pairwise fun f g => g.1.key ≤ f.1.key
  behind : ∀ f ∈ i.fired, ∀ p ∈ i.pending, f.1.key ≤ p.key
  /-- Each that was scheduled was fired once or is pending. -/
  kept : i.scheduled.Perm (i.fired.map Prod.fst ++ i.pending)
  ticks : i.totalTicks = i.idleTicks + i.systemTicks + i.userTicks

namespace Timely

theorem new (machine : σ) : Timely (Interrupt.new machine : Interrupt σ α) :=
  ⟨.nil, fun _ hf => (by cases hf), .nil, fun _ hf => (by cases hf), .refl _, rfl⟩

/-- Time passes, and the other fields may change. -/
theorem later (h : Timely i) (hpending : i'.pending = i.pending) (hfired : i'.fired = i.fired)
    (hscheduled : i'.scheduled = i.scheduled) (hle : i.totalTicks ≤ i'.totalTicks)
    (hticks : i'.totalTicks = i'.idleTicks + i'.systemTicks + i'.userTicks) : Timely i' := by
  obtain ⟨horder, hearly, hsorted, hbehind, hkept, -⟩ := h
  refine ⟨by rwa [hpending], fun f hf => ?_, by rwa [hfired], by rwa [hfired, hpending],
    by rwa [hfired, hpending, hscheduled], hticks⟩
  rw [hfired] at hf
  obtain ⟨hkey, htime⟩ := hearly f hf
  exact ⟨hkey, Int.le_trans htime hle⟩

theorem advanceTo (h : Timely i) (time : Int) : Timely (i.advanceTo time) := by
  have hticks := h.ticks
  unfold Interrupt.advanceTo
  by_cases hlt : i.totalTicks < time
  · rw [if_pos hlt]
    refine h.later rfl rfl rfl (Int.le_of_lt hlt) ?_
    show time = i.idleTicks + (time - i.totalTicks) + i.systemTicks + i.userTicks
    omega
  · rw [if_neg hlt]
    exact h

theorem tick (h : Timely i) : Timely i.tick := by
  have hticks := h.ticks
  unfold Interrupt.tick
  by_cases hsystem : i.status = .SystemMode
  · rw [if_pos hsystem]
    refine h.later rfl rfl rfl (show i.totalTicks ≤ i.totalTicks + 10 by omega) ?_
    show i.totalTicks + 10 = i.idleTicks + (i.systemTicks + 10) + i.userTicks
    omega
  · rw [if_neg hsystem]
    refine h.later rfl rfl rfl (show i.totalTicks ≤ i.totalTicks + 1 by omega) ?_
    show i.totalTicks + 1 = i.idleTicks + i.systemTicks + (i.userTicks + 1)
    omega

theorem schedule {handler : α} {fromNow : Int} {type : IntType} (h : Timely i)
    (hs : i.Schedule handler fromNow type = some i') : Timely i' := by
  unfold Interrupt.Schedule at hs
  by_cases hpos : 0 < fromNow
  · rw [if_pos hpos] at hs
    cases hs
    refine ⟨h.inOrder.insert _, h.notEarly, h.firedInOrder, fun f hf p hp => ?_, ?_, h.ticks⟩
    · rcases (List.mem_orderedInsert _).mp hp with rfl | hp
      · -- what was fired was due by now, and the new one is later than now
        obtain ⟨hkey, htime⟩ := h.notEarly f hf
        show f.1.key ≤ i.totalTicks + fromNow
        omega
      · exact h.behind f hf p hp
    · refine ((h.kept.cons _).trans List.perm_middle.symm).trans ?_
      exact ((List.perm_orderedInsert _ _ _).symm).append_left _
  · rw [if_neg hpos] at hs
    cases hs

/-- An interrupt that is not fired is put back. -/
theorem putBack (h : Timely i) (hpending : i.pending = e :: rest) :
    Timely ((i.setPending rest).SortedInsert e) := by
  have hperm : (rest.orderedInsert Entry.Before e).Perm i.pending := by
    rw [hpending]
    exact List.perm_orderedInsert _ _ _
  have hrest : InOrder rest := by
    have horder := h.inOrder
    rw [hpending] at horder
    exact List.Pairwise.tail horder
  refine ⟨hrest.insert e, h.notEarly, h.firedInOrder, fun f hf p hp => ?_, ?_, h.ticks⟩
  · exact h.behind f hf p (hperm.mem_iff.mp hp)
  · exact h.kept.trans (hperm.symm.append_left _)

/-- The first one is fired. -/
theorem enter (h : Timely i) (hpending : i.pending = e :: rest) (hdue : e.key ≤ i.totalTicks)
    (machine : σ) : Timely ((i.setPending rest).enter e machine) := by
  have horder := h.inOrder
  have hkept := h.kept
  rw [hpending] at horder hkept
  obtain ⟨hfirst, hrest⟩ := List.pairwise_cons.mp horder
  refine ⟨hrest, fun f hf => ?_, List.pairwise_cons.mpr ⟨fun f hf => ?_, h.firedInOrder⟩,
    fun f hf p hp => ?_, hkept.trans List.perm_middle, h.ticks⟩
  · rcases List.mem_cons.mp hf with rfl | hf
    · exact ⟨hdue, Int.le_refl _⟩
    · exact h.notEarly f hf
  · exact h.behind f hf e (by rw [hpending]; exact List.mem_cons_self ..)
  · rcases List.mem_cons.mp hf with rfl | hf
    · exact hfirst p hp
    · exact h.behind f hf p (by rw [hpending]; exact List.mem_cons_of_mem _ hp)

theorem ask (h : Timely i) {q : Ask α} (hq : i.ask q = some i') : Timely i' := by
  cases q with
  | Schedule handler fromNow type => exact h.schedule hq
  | YieldOnReturn =>
    unfold Interrupt.ask Interrupt.YieldOnReturn at hq
    by_cases hin : i.inHandler
    · rw [if_pos hin] at hq
      cases hq
      exact h.later rfl rfl rfl (Int.le_refl _) h.ticks
    · rw [if_neg hin] at hq
      cases hq

theorem asks (h : Timely i) {l : List (Ask α)} (hl : i.asks l = some i') : Timely i' := by
  induction l generalizing i with
  | nil =>
    cases hl
    exact h
  | cons q l ih =>
    obtain ⟨i₁, hq, hrest⟩ := Option.bind_eq_some_iff.mp hl
    exact ih (h.ask hq) hrest

end Timely

/-! ### One look at the list -/

namespace Interrupt

variable {adv b : Bool} {time : Int}

theorem advanceTo_pending : (i.advanceTo time).pending = i.pending := by
  unfold advanceTo
  by_cases hlt : i.totalTicks < time
  · rw [if_pos hlt]
  · rw [if_neg hlt]

theorem le_advanceTo : time ≤ (i.advanceTo time).totalTicks := by
  unfold advanceTo
  by_cases hlt : i.totalTicks < time
  · rw [if_pos hlt]
  · rw [if_neg hlt]
    exact Int.not_lt.mp hlt

theorem advanceTo_of_due (h : time ≤ i.totalTicks) : i.advanceTo time = i :=
  if_neg (Int.not_lt.mpr h)

theorem advanceTo_setPending :
    (i.setPending rest).advanceTo time = (i.advanceTo time).setPending rest := by
  unfold advanceTo
  by_cases hlt : i.totalTicks < time
  · rw [if_pos hlt, if_pos (show (i.setPending rest).totalTicks < time from hlt)]
    rfl
  · rw [if_neg hlt, if_neg (show ¬ (i.setPending rest).totalTicks < time from hlt)]

/-- Nothing is pending, or the first one is put back, now or at its time, or it is fired. -/
theorem CheckIfDue_cases (h : i.CheckIfDue handle adv = some (i', b)) :
    (i' = i ∧ b = false) ∨ ∃ e rest, i.pending = e :: rest ∧
      ((i' = (i.setPending rest).SortedInsert e ∧ b = false) ∨
        (i' = ((i.advanceTo e.key).setPending rest).SortedInsert e ∧ b = false) ∨
        (((i.advanceTo e.key).setPending rest).fire handle e = some i' ∧ b = true)) := by
  unfold CheckIfDue at h
  by_cases hlevel : i.level ≠ .IntOff
  · rw [if_pos hlevel] at h
    cases h
  · rw [if_neg hlevel] at h
    cases hpending : i.pending with
    | nil =>
      rw [hpending] at h
      cases h
      exact .inl ⟨rfl, rfl⟩
    | cons e rest =>
      refine .inr ⟨e, rest, rfl, ?_⟩
      simp only [hpending, advanceTo_setPending] at h
      by_cases hwait : adv = false ∧ i.totalTicks < e.key
      · rw [if_pos hwait] at h
        cases h
        exact .inl ⟨rfl, rfl⟩
      · rw [if_neg hwait] at h
        split at h
        · cases h
          exact .inr (.inl ⟨rfl, rfl⟩)
        · obtain ⟨i₁, hfire, heq⟩ := Option.map_eq_some_iff.mp h
          cases heq
          exact .inr (.inr ⟨hfire, rfl⟩)

end Interrupt

namespace Timely

variable {adv b : Bool}

theorem fire (h : Timely i) (hpending : i.pending = e :: rest) (hdue : e.key ≤ i.totalTicks)
    (hf : (i.setPending rest).fire handle e = some i') : Timely i' := by
  obtain ⟨i₁, hi₁, rfl⟩ := Option.map_eq_some_iff.mp hf
  have hi := (h.enter hpending hdue _).asks hi₁
  exact hi.later rfl rfl rfl (Int.le_refl _) hi.ticks

theorem checkIfDue (h : Timely i) (hc : i.CheckIfDue handle adv = some (i', b)) : Timely i' := by
  obtain ⟨rfl, -⟩ | ⟨e, rest, hpending, hcase⟩ := Interrupt.CheckIfDue_cases hc
  · exact h
  · have hlater : (i.advanceTo e.key).pending = e :: rest :=
      Interrupt.advanceTo_pending.trans hpending
    obtain ⟨rfl, -⟩ | ⟨rfl, -⟩ | ⟨hfire, -⟩ := hcase
    · exact h.putBack hpending
    · exact (h.advanceTo e.key).putBack hlater
    · exact (h.advanceTo e.key).fire hlater Interrupt.le_advanceTo hfire

theorem checkLoop (h : Timely i) (hl : i.checkLoop handle n = some i') : Timely i' := by
  induction n generalizing i with
  | zero => cases hl
  | succ n ih =>
    obtain ⟨⟨i₁, again⟩, hc, hrest⟩ := Option.bind_eq_some_iff.mp hl
    have hi₁ := h.checkIfDue hc
    cases again with
    | false =>
      cases hrest
      exact hi₁
    | true => exact ih hi₁ hrest

theorem setLevel (h : Timely i) (now : IntStatus) : Timely (i.ChangeLevel now) :=
  h.later rfl rfl rfl (Int.le_refl _) h.ticks

theorem oneTick (h : Timely i) {res : Interrupt σ α × Bool} (ht : i.OneTick handle n = some res) :
    Timely res.1 := by
  obtain ⟨i₁, hi₁, rfl⟩ := Option.map_eq_some_iff.mp ht
  have hi := (h.tick.setLevel .IntOff).checkLoop hi₁
  by_cases hyield : (i₁.ChangeLevel .IntOn).yieldOnReturn
  · rw [if_pos hyield]
    exact hi.later rfl rfl rfl (Int.le_refl _) hi.ticks
  · rw [if_neg hyield]
    exact hi.setLevel .IntOn

theorem step {c : Call σ α} (h : Timely i) (hs : InterruptStep handle i c i') : Timely i' := by
  obtain ⟨n, hs⟩ := hs
  cases c with
  | Schedule handler fromNow type => exact h.schedule hs
  | SetLevel now =>
    obtain ⟨res, hres, rfl⟩ := Option.map_eq_some_iff.mp hs
    unfold Interrupt.SetLevel at hres
    split at hres
    · split at hres
      · exact (h.setLevel now).oneTick hres
      · cases hres
        exact h.setLevel now
    · cases hres
  | OneTick =>
    obtain ⟨res, hres, rfl⟩ := Option.map_eq_some_iff.mp hs
    exact h.oneTick hres
  | Idle =>
    obtain ⟨res, hres, rfl⟩ := Option.map_eq_some_iff.mp hs
    obtain ⟨⟨i₁, fired⟩, hc, hrest⟩ := Option.bind_eq_some_iff.mp hres
    have hidle : Timely (i.setStatus .IdleMode) := h.later rfl rfl rfl (Int.le_refl _) h.ticks
    have hi₁ := hidle.checkIfDue hc
    cases fired with
    | false =>
      cases hrest
      exact hi₁
    | true =>
      obtain ⟨i₂, hi₂, rfl⟩ := Option.map_eq_some_iff.mp hrest
      have hi := hi₁.checkLoop hi₂
      exact hi.later rfl rfl rfl (Int.le_refl _) hi.ticks
  | setStatus status =>
    cases hs
    exact h.later rfl rfl rfl (Int.le_refl _) h.ticks
  | other machine =>
    cases hs
    exact h.later rfl rfl rfl (Int.le_refl _) h.ticks

end Timely

/-! ### A tick returns -/

/-- The number of interrupts that are due. -/
def Interrupt.due (i : Interrupt σ α) : Nat := i.pending.countP fun p => p.key ≤ i.totalTicks

/-- What a handler may ask leaves the clock alone, and is not due yet. -/
structure Asked (i i' : Interrupt σ α) : Prop where
  level : i'.level = i.level
  inHandler : i'.inHandler = i.inHandler
  totalTicks : i'.totalTicks = i.totalTicks
  due : i'.due = i.due

namespace Interrupt

theorem ask_returns {q : Ask α} (hq : q.Allowed) (hin : i.inHandler = true) :
    ∃ i', i.ask q = some i' ∧ Asked i i' := by
  cases q with
  | Schedule handler fromNow type =>
    have hpos : 0 < fromNow := hq
    refine ⟨_, if_pos hpos, rfl, rfl, rfl, ?_⟩
    have hlate : ¬ i.totalTicks + fromNow ≤ i.totalTicks := by omega
    refine ((List.perm_orderedInsert _ _ _).countP_eq _).trans ?_
    exact List.countP_cons_of_neg fun hle => hlate (of_decide_eq_true hle)
  | YieldOnReturn => exact ⟨_, if_pos hin, rfl, rfl, rfl, rfl⟩

theorem asks_returns {l : List (Ask α)} (hl : ∀ q ∈ l, q.Allowed) (hin : i.inHandler = true) :
    ∃ i', i.asks l = some i' ∧ Asked i i' := by
  induction l generalizing i with
  | nil => exact ⟨i, rfl, rfl, rfl, rfl, rfl⟩
  | cons q l ih =>
    obtain ⟨i₁, hi₁, h₁⟩ := ask_returns (hl q (List.mem_cons_self ..)) hin
    obtain ⟨i', hi', h'⟩ := ih (fun q hq => hl q (List.mem_cons_of_mem _ hq))
      (h₁.inHandler.trans hin)
    refine ⟨i', ?_, h'.level.trans h₁.level, h'.inHandler.trans h₁.inHandler,
      h'.totalTicks.trans h₁.totalTicks, h'.due.trans h₁.due⟩
    rw [asks, hi₁, Option.bind_some]
    exact hi'

variable (hhandle : ∀ a time machine, ∀ q ∈ (handle a time machine).2, q.Allowed)

include hhandle

theorem fire_returns : ∃ i', i.fire handle e = some i' ∧ i'.level = i.level ∧
    i'.status = i.status ∧ i'.totalTicks = i.totalTicks ∧ i'.due = i.due := by
  obtain ⟨i', hi', hasked⟩ := asks_returns (i := i.enter e _)
    (hhandle e.item.handler i.totalTicks i.machine) rfl
  exact ⟨i'.leave i.status, by rw [fire, hi']; rfl, hasked.level, rfl, hasked.totalTicks,
    hasked.due⟩

/-- The loop, by induction on its turns: each fires one of the interrupts that are due. -/
theorem checkLoop_returns (h : Timely i) (hlevel : i.level = .IntOff)
    (hstatus : i.status ≠ .IdleMode) (hn : i.due < n) :
    ∃ i', i.checkLoop handle n = some i' ∧ i'.due = 0 := by
  induction n generalizing i with
  | zero => omega
  | succ n ih =>
    have hoff : ¬ i.level ≠ .IntOff := not_not.mpr hlevel
    cases hpending : i.pending with
    | nil =>
      refine ⟨i, ?_, by rw [due, hpending]; rfl⟩
      rw [checkLoop, CheckIfDue, if_neg hoff, hpending]
      rfl
    | cons e rest =>
      have horder := h.inOrder
      rw [hpending] at horder
      by_cases hlt : i.totalTicks < e.key
      · -- the first one is not due, and the others come after it
        refine ⟨(i.setPending rest).SortedInsert e, ?_, ?_⟩
        · rw [checkLoop, CheckIfDue, if_neg hoff, hpending]
          simp only [hlt, and_self, if_true]
          rfl
        · refine ((List.perm_orderedInsert _ _ _).countP_eq _).trans ?_
          refine List.countP_eq_zero.mpr fun p hp => ?_
          have hkey : e.key ≤ p.key := by
            rcases List.mem_cons.mp hp with rfl | hp
            · exact Int.le_refl _
            · exact (List.pairwise_cons.mp horder).1 p hp
          show ¬ decide (p.key ≤ i.totalTicks) = true
          rw [decide_eq_true_iff]
          omega
      · -- the handler adds nothing that is due, so one less is left
        have hdue : e.key ≤ i.totalTicks := Int.not_lt.mp hlt
        obtain ⟨i₁, hi₁, hlevel₁, hstatus₁, -, hdue₁⟩ :=
          fire_returns (i := i.setPending rest) (e := e) hhandle
        have hless : i.due = (i.setPending rest).due + 1 := by
          rw [due, hpending]
          exact List.countP_cons_of_pos (by simpa using hdue)
        obtain ⟨i', hi', hnone⟩ := ih (h.fire hpending hdue hi₁) (hlevel₁.trans hlevel)
          (by rw [hstatus₁]; exact hstatus) (by omega)
        refine ⟨i', ?_, hnone⟩
        have hidle : ¬ ((i.setPending rest).status = .IdleMode ∧ e.item.type = .TimerInt ∧
            rest.isEmpty) := fun hand => hstatus hand.1
        rw [checkLoop, CheckIfDue, if_neg hoff, hpending]
        simp only [hlt, and_false, if_false, advanceTo_of_due (i := i.setPending rest) hdue,
          if_neg hidle, hi₁, Option.map_some, Option.bind_some, if_true]
        exact hi'

theorem OneTick_returns (h : Timely i) (hstatus : i.status ≠ .IdleMode)
    (hn : i.pending.length < n) :
    ∃ res, i.OneTick handle n = some res ∧ ∀ p ∈ res.1.pending, res.1.totalTicks < p.key := by
  obtain ⟨hpending, hstatus'⟩ : i.tick.pending = i.pending ∧ i.tick.status = i.status := by
    unfold tick
    by_cases hsystem : i.status = .SystemMode
    · rw [if_pos hsystem]
      exact ⟨rfl, rfl⟩
    · rw [if_neg hsystem]
      exact ⟨rfl, rfl⟩
  have hfuel : (i.tick.ChangeLevel .IntOff).due < n := by
    have hle : (i.tick.ChangeLevel .IntOff).due ≤ i.tick.pending.length := List.countP_le_length
    rw [hpending] at hle
    omega
  obtain ⟨i', hi', hnone⟩ := checkLoop_returns hhandle (h.tick.setLevel .IntOff) rfl
    (show i.tick.status ≠ .IdleMode by rw [hstatus']; exact hstatus) hfuel
  refine ⟨_, by rw [OneTick, hi', Option.map_some], fun p hp => ?_⟩
  have hlate : ∀ p ∈ i'.pending, i'.totalTicks < p.key := fun p hp =>
    Int.not_le.mp (by simpa using List.countP_eq_zero.mp hnone p hp)
  by_cases hyield : (i'.ChangeLevel .IntOn).yieldOnReturn
  · rw [if_pos hyield] at hp ⊢
    exact hlate p hp
  · rw [if_neg hyield] at hp ⊢
    exact hlate p hp

end Interrupt

/-! ### Runs -/

/-- **Interrupts are fired in the order of their times**, none before its time and each once. A tick
returns and leaves none that is due: where handlers schedule for later only, it takes no more turns
than interrupts are pending. -/
theorem fire_in_order {machine : σ} {log : List (Call σ α)}
    (h : Path (InterruptStep handle) (Interrupt.new machine) log i) :
    Timely i ∧ ((∀ a time machine, ∀ q ∈ (handle a time machine).2, q.Allowed) →
      i.status ≠ .IdleMode → ∀ n, i.pending.length < n → ∃ res, i.OneTick handle n = some res ∧
        ∀ p ∈ res.1.pending, res.1.totalTicks < p.key) := by
  have htimely : Timely i :=
    h.invariant (I := Timely) (fun _ _ _ hi hs => hi.step hs) (Timely.new machine)
  exact ⟨htimely, fun hhandle hstatus n hn => Interrupt.OneTick_returns hhandle htimely hstatus hn⟩

/-- The handlers of a timer, which schedules itself, and of a disk, which counts requests. -/
def timerAndDisk : Bool → Int → Nat → Nat × List (Ask Bool)
  | true, _, k => (k, [.Schedule true 100 .TimerInt, .YieldOnReturn])
  | false, _, k => (k + 1, [])

theorem fire_in_order_timer : ∃ i : Interrupt Nat Bool, Timely i ∧ i.machine = 1 ∧
    ∃ res, i.OneTick timerAndDisk 2 = some res ∧ ∀ p ∈ res.1.pending, res.1.totalTicks < p.key := by
  have hpath : Path (InterruptStep timerAndDisk) (Interrupt.new 0)
      [.Schedule true 100 .TimerInt, .Schedule false 5 .DiskInt, .SetLevel .IntOn] _ :=
    .cons ⟨0, rfl⟩ (.cons ⟨0, rfl⟩ (.cons ⟨2, rfl⟩ (.nil _)))
  have hhandle : ∀ a time machine, ∀ q ∈ (timerAndDisk a time machine).2, q.Allowed := by
    intro a time machine q hq
    cases a with
    | true =>
      rcases List.mem_cons.mp hq with rfl | hq
      · exact (by decide : (0 : Int) < 100)
      · rw [List.mem_singleton.mp hq]
        trivial
    | false => cases hq
  obtain ⟨htimely, htick⟩ := fire_in_order hpath
  exact ⟨_, htimely, rfl, htick hhandle (by decide) 2 (by decide)⟩

end Nachos.Interrupts

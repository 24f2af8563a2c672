import Mathlib.Algebra.BigOperators.Group.Finset.Basic
import Mathlib.Logic.Function.Basic
import Nachos.Lib.Path

/-!
# Programs over one lock server

Threads that share nothing but a server of locks, condition variables and arrays of
integers. A program says at each of its locations what it asks the server for and where it
goes on with the answer; one step is one request. The server grants its locks in the order
of the requests, and a woken thread joins the queue of the lock at the moment it is woken.

The library has what any such program is verified with:

* `Micro`, the server's work cut into pieces that move at most one thread, and the rule that
  what every piece keeps, every run keeps (`invariant_of_micro`);
* `Discipline` and `Locked`: which locks a location holds, and that the server agrees;
* `Claims` and `Known`: what a location may say about the variables its locks guard;
* `Tallies` and `Tallied`: a variable that counts the threads at certain locations.
-/

namespace Lib.Monitor

/-- What a thread asks the server for. -/
inductive Request (L C X : Type) where
  | Acquire (l : L)
  | Release (l : L)
  | Wait (c : C) (l : L)
  | Signal (c : C) (l : L)
  | Broadcast (c : C) (l : L)
  | Get (x : X) (i : Int)
  | Set (x : X) (i v : Int)
  | Exit
deriving DecidableEq

/-- What a thread is waiting for: nothing, a lock, or to be woken. -/
inductive Mode (L C : Type) where
  | running
  | queued (l : L)
  | asleep (c : C)
deriving DecidableEq

/-- A program: the request of each location, and where it goes on with an answer and a
random number. The arrays have their sizes. -/
structure Program (L C X Loc : Type) where
  request : Loc → Request L C X
  next : Loc → Int → Nat → Loc
  size : X → Nat

/-- The server, and where its threads are. -/
structure State (T L C X Loc : Type) where
  owner : L → Option T
  queue : L → List T
  waiters : C → List T
  mode : T → Mode L C
  val : X → Int → Int
  loc : T → Loc

set_option linter.unusedSectionVars false

variable {T L C X Loc : Type} [DecidableEq T] [DecidableEq L] [DecidableEq C] [DecidableEq X]

/-- Reading outside of the array fails, and a failed read gives 0. -/
def Program.get (P : Program L C X Loc) (val : X → Int → Int) (x : X) (i : Int) : Int :=
  if 0 ≤ i ∧ i < P.size x then val x i else 0

/-- Writing outside of the array fails, and a failed write changes nothing. -/
def Program.set (P : Program L C X Loc) (val : X → Int → Int) (x : X) (i v : Int) :
    X → Int → Int :=
  if 0 ≤ i ∧ i < P.size x then Function.update val x (Function.update (val x) i v) else val

namespace State

variable (P : Program L C X Loc) (s : State T L C X Loc)

/-- All locks are free and nobody waits. -/
def init (val : X → Int → Int) (loc : T → Loc) : State T L C X Loc where
  owner _ := none
  queue _ := []
  waiters _ := []
  mode _ := .running
  val := val
  loc := loc

/-- The thread goes on with the answer `a` and the random number `r`. -/
def goOn (t : T) (a : Int) (r : Nat) : State T L C X Loc :=
  { s with loc := Function.update s.loc t (P.next (s.loc t) a r) }

def setOwner (l : L) (o : Option T) : State T L C X Loc :=
  { s with owner := Function.update s.owner l o }

def write (x : X) (i v : Int) : State T L C X Loc :=
  { s with val := P.set s.val x i v }

/-- The lock is taken: the thread waits at the end of its queue. -/
def enqueue (l : L) (t : T) : State T L C X Loc :=
  { s with
    queue := Function.update s.queue l (s.queue l ++ [t])
    mode := Function.update s.mode t (.queued l) }

def sleep (c : C) (t : T) : State T L C X Loc :=
  { s with
    waiters := Function.update s.waiters c (s.waiters c ++ [t])
    mode := Function.update s.mode t (.asleep c) }

/-- The first `n` waiters join the queue of the lock. -/
def wake (c : C) (l : L) (n : Nat) : State T L C X Loc :=
  { s with
    waiters := Function.update s.waiters c ((s.waiters c).drop n)
    queue := Function.update s.queue l (s.queue l ++ (s.waiters c).take n)
    mode := fun u => if u ∈ (s.waiters c).take n then .queued l else s.mode u }

/-- The lock goes to `u`, whose request is answered by that. -/
def grantTo (l : L) (u : T) (q : List T) : State T L C X Loc :=
  ({ s with
    owner := Function.update s.owner l (some u)
    queue := Function.update s.queue l q
    mode := Function.update s.mode u .running } : State T L C X Loc).goOn P u 0 0

/-- A free lock goes to the first of its queue. -/
def handOff (l : L) : State T L C X Loc :=
  match s.queue l with
  | [] => s
  | u :: q => s.grantTo P l u q

end State

/-- One request of the thread `t`; a thread that waits for an answer makes none. -/
def Program.step (P : Program L C X Loc) (s : State T L C X Loc) (a : T × Nat) :
    Option (State T L C X Loc) :=
  if s.mode a.1 = .running then
    match P.request (s.loc a.1) with
    | .Acquire l =>
      match s.owner l with
      | none => some ((s.setOwner l (some a.1)).goOn P a.1 0 0)
      | some _ => some (s.enqueue l a.1)
    | .Release l =>
      if s.owner l = some a.1 then
        some (((s.setOwner l none).goOn P a.1 0 a.2).handOff P l)
      else some (s.goOn P a.1 0 a.2)
    | .Wait c l =>
      if s.owner l = some a.1 then some (((s.setOwner l none).sleep c a.1).handOff P l)
      else some (s.goOn P a.1 0 a.2)
    | .Signal c l =>
      if s.owner l = some a.1 then some ((s.wake c l 1).goOn P a.1 0 a.2)
      else some (s.goOn P a.1 0 a.2)
    | .Broadcast c l =>
      if s.owner l = some a.1 then
        some ((s.wake c l (s.waiters c).length).goOn P a.1 0 a.2)
      else some (s.goOn P a.1 0 a.2)
    | .Get x i => some (s.goOn P a.1 (P.get s.val x i) a.2)
    | .Set x i v => some ((s.write P x i v).goOn P a.1 0 a.2)
    | .Exit => none
  else none

/-- Any thread makes its next request. -/
def Program.Step (P : Program L C X Loc) (s : State T L C X Loc) (a : T × Nat)
    (s' : State T L C X Loc) : Prop :=
  P.step s a = some s'

/-! ### The server's work in pieces -/

/-- What a thread that asks for this is told when it does not own the lock: nothing. -/
def Request.Needs (l : L) : Request L C X → Prop
  | .Release m | .Wait _ m | .Signal _ m | .Broadcast _ m => m = l
  | _ => False

/-- How many waiters a request wakes. -/
def Request.Wakes (s : State T L C X Loc) (c : C) (l : L) (n : Nat) (q : Request L C X) : Prop :=
  (q = .Signal c l ∧ n = 1) ∨ (q = .Broadcast c l ∧ n = (s.waiters c).length)

/-- **One piece of the server's work**, and the thread that asked for it. Handing a lock over
is a piece of its own, so that each piece moves one thread at most. -/
inductive Micro (P : Program L C X Loc) (s : State T L C X Loc) :
    Option T → State T L C X Loc → Prop where
  | acquire {t : T} {l : L} (hrun : s.mode t = .running)
      (hreq : P.request (s.loc t) = .Acquire l) (howner : s.owner l = none)
      (hqueue : s.queue l = []) : Micro P s (some t) ((s.setOwner l (some t)).goOn P t 0 0)
  | enqueue {t u : T} {l : L} (hrun : s.mode t = .running)
      (hreq : P.request (s.loc t) = .Acquire l) (howner : s.owner l = some u) :
      Micro P s (some t) (s.enqueue l t)
  | release {t : T} {l : L} (r : Nat) (hrun : s.mode t = .running)
      (hreq : P.request (s.loc t) = .Release l) (howner : s.owner l = some t) :
      Micro P s (some t) ((s.setOwner l none).goOn P t 0 r)
  | sleep {t : T} {c : C} {l : L} (hrun : s.mode t = .running)
      (hreq : P.request (s.loc t) = .Wait c l) (howner : s.owner l = some t) :
      Micro P s (some t) ((s.setOwner l none).sleep c t)
  | wake {t : T} {c : C} {l : L} {n : Nat} (r : Nat) (hrun : s.mode t = .running)
      (hreq : (P.request (s.loc t)).Wakes s c l n) (howner : s.owner l = some t) :
      Micro P s (some t) ((s.wake c l n).goOn P t 0 r)
  | refused {t : T} {l : L} (r : Nat) (hrun : s.mode t = .running)
      (hreq : (P.request (s.loc t)).Needs l) (howner : s.owner l ≠ some t) :
      Micro P s (some t) (s.goOn P t 0 r)
  | get {t : T} {x : X} {i : Int} (r : Nat) (hrun : s.mode t = .running)
      (hreq : P.request (s.loc t) = .Get x i) :
      Micro P s (some t) (s.goOn P t (P.get s.val x i) r)
  | set {t : T} {x : X} {i v : Int} (r : Nat) (hrun : s.mode t = .running)
      (hreq : P.request (s.loc t) = .Set x i v) :
      Micro P s (some t) ((s.write P x i v).goOn P t 0 r)
  | grant {u : T} {l : L} {q : List T} (howner : s.owner l = none) (hqueue : s.queue l = u :: q) :
      Micro P s none (s.grantTo P l u q)

/-- Nobody waits for a free lock. -/
def State.Settled (s : State T L C X Loc) : Prop := ∀ l, s.owner l = none → s.queue l = []

namespace State

variable {P : Program L C X Loc} {s : State T L C X Loc}

theorem settled_of_free {l : L} {s' : State T L C X Loc} (h : s.Settled)
    (howner : s'.owner = Function.update s.owner l none)
    (hqueue : ∀ m, m ≠ l → s'.queue m = s.queue m) (hempty : s'.queue l = []) : s'.Settled := by
  intro m hm
  by_cases hml : m = l
  · rw [hml, hempty]
  · rw [hqueue m hml]
    rw [howner, Function.update_of_ne hml] at hm
    exact h m hm

theorem Settled.wake {t : T} {c : C} {l : L} {n : Nat} {a : Int} {r : Nat} (h : s.Settled)
    (howner : s.owner l = some t) : ((s.wake c l n).goOn P t a r).Settled := by
  intro m hm
  have hml : m ≠ l := by
    rintro rfl
    exact absurd (howner.symm.trans hm) nofun
  show Function.update s.queue l _ m = []
  rw [Function.update_of_ne hml]
  exact h m hm

/-- Handing over is granting, where somebody waits. -/
theorem handOff_cases (l : L) (howner : s.owner l = none) :
    (s.handOff P l = s ∧ s.queue l = []) ∨
      (Micro P s none (s.handOff P l) ∧ (s.handOff P l).owner l ≠ none ∧
        ∀ m, m ≠ l → (s.handOff P l).owner m = s.owner m ∧ (s.handOff P l).queue m = s.queue m) := by
  unfold handOff
  split
  · rename_i hq
    exact .inl ⟨rfl, hq⟩
  · rename_i u q hq
    refine .inr ⟨.grant howner hq, ?_, fun m hm => ⟨?_, ?_⟩⟩
    · show Function.update s.owner l (some u) l ≠ none
      simp
    · exact Function.update_of_ne hm _ _
    · exact Function.update_of_ne hm _ _

/-- After a lock was freed and handed over, nobody waits for a free lock. -/
theorem settled_handOff {l : L} {w : State T L C X Loc} (h : s.Settled)
    (howner : w.owner = Function.update s.owner l none) (hqueue : w.queue = s.queue) :
    (w.handOff P l).Settled ∧ ((w.handOff P l) = w ∨ Micro P w none (w.handOff P l)) := by
  have hfree : w.owner l = none := by rw [howner, Function.update_self]
  rcases handOff_cases l hfree with ⟨heq, hempty⟩ | ⟨hmicro, howned, hother⟩
  · rw [heq]
    exact ⟨settled_of_free h howner (fun m _ => by rw [hqueue]) hempty, .inl rfl⟩
  · refine ⟨fun m hm => ?_, .inr hmicro⟩
    by_cases hml : m = l
    · subst hml
      exact absurd hm howned
    · rw [(hother m hml).1, howner, Function.update_of_ne hml] at hm
      rw [(hother m hml).2, hqueue]
      exact h m hm

end State

/-- **A step is a piece of work, and a lock handed over after it at most.** -/
theorem micro_of_step {P : Program L C X Loc} {s s' : State T L C X Loc} {a : T × Nat}
    (h : s.Settled) (hstep : P.Step s a s') :
    s'.Settled ∧ ∃ s₁, Micro P s (some a.1) s₁ ∧ (s' = s₁ ∨ Micro P s₁ none s') := by
  obtain ⟨t, r⟩ := a
  unfold Program.Step Program.step at hstep
  dsimp only at hstep ⊢
  split at hstep
  · rename_i hrun
    split at hstep
    · rename_i l hreq
      split at hstep
      · rename_i howner
        cases hstep
        refine ⟨fun m hm => ?_, _, .acquire hrun hreq howner (h l howner), .inl rfl⟩
        have hml : m ≠ l := by
          rintro rfl
          simp [State.goOn, State.setOwner] at hm
        have hfree : Function.update s.owner l (some t) m = none := hm
        rw [Function.update_of_ne hml] at hfree
        exact h m hfree
      · rename_i u howner
        cases hstep
        refine ⟨fun m hm => ?_, _, .enqueue hrun hreq howner, .inl rfl⟩
        have hml : m ≠ l := by
          rintro rfl
          exact absurd (howner.symm.trans hm) nofun
        show Function.update s.queue l _ m = []
        rw [Function.update_of_ne hml]
        exact h m hm
    · rename_i l hreq
      split at hstep
      · rename_i howner
        cases hstep
        obtain ⟨hsettled, hhand⟩ := State.settled_handOff (P := P) (l := l)
          (w := (s.setOwner l none).goOn P t 0 r) h rfl rfl
        exact ⟨hsettled, _, .release r hrun hreq howner, hhand⟩
      · rename_i howner
        cases hstep
        exact ⟨h, _, .refused r hrun (by rw [hreq]; rfl) howner, .inl rfl⟩
    · rename_i c l hreq
      split at hstep
      · rename_i howner
        cases hstep
        obtain ⟨hsettled, hhand⟩ := State.settled_handOff (P := P) (l := l)
          (w := (s.setOwner l none).sleep c t) h rfl rfl
        exact ⟨hsettled, _, .sleep hrun hreq howner, hhand⟩
      · rename_i howner
        cases hstep
        exact ⟨h, _, .refused r hrun (by rw [hreq]; rfl) howner, .inl rfl⟩
    · rename_i c l hreq
      split at hstep
      · rename_i howner
        cases hstep
        exact ⟨h.wake howner, _, .wake r hrun (.inl ⟨hreq, rfl⟩) howner, .inl rfl⟩
      · rename_i howner
        cases hstep
        exact ⟨h, _, .refused r hrun (by rw [hreq]; rfl) howner, .inl rfl⟩
    · rename_i c l hreq
      split at hstep
      · rename_i howner
        cases hstep
        exact ⟨h.wake howner, _, .wake r hrun (.inr ⟨hreq, rfl⟩) howner, .inl rfl⟩
      · rename_i howner
        cases hstep
        exact ⟨h, _, .refused r hrun (by rw [hreq]; rfl) howner, .inl rfl⟩
    · rename_i x i hreq
      cases hstep
      exact ⟨h, _, .get r hrun hreq, .inl rfl⟩
    · rename_i x i v hreq
      cases hstep
      exact ⟨h, _, .set r hrun hreq, .inl rfl⟩
    · cases hstep
  · cases hstep

/-- **The invariant rule.** What every piece of work keeps, every run keeps; the pieces may
use the condition on the steps of the run. -/
theorem invariant_of_micro {P : Program L C X Loc} {I : State T L C X Loc → Prop}
    {D : State T L C X Loc → T × Nat → Prop} {init s : State T L C X Loc}
    (hI : ∀ s o s', I s → (∀ t, o = some t → ∃ r, D s (t, r)) → Micro P s o s' → I s')
    (h : Reachable (Restrict P.Step D) init s) (hinit : I init) (hsettled : init.Settled) :
    I s := by
  have hboth := h.invariant (I := fun s => State.Settled s ∧ I s) ⟨hsettled, hinit⟩ ?_
  · exact hboth.2
  · rintro s a s' ⟨hsettled, hs⟩ ⟨hstep, hD⟩
    obtain ⟨hsettled', s₁, hmicro, hlast⟩ := micro_of_step hsettled hstep
    have hs₁ : I s₁ := hI s _ s₁ hs (fun t ht => ⟨a.2, by cases ht; exact hD⟩) hmicro
    refine ⟨hsettled', ?_⟩
    rcases hlast with rfl | hgrant
    · exact hs₁
    · exact hI s₁ none s' hs₁ nofun hgrant

/-- The same, for runs without a condition. -/
theorem reachable_of_micro {P : Program L C X Loc} {I : State T L C X Loc → Prop}
    {init s : State T L C X Loc} (hI : ∀ s o s', I s → Micro P s o s' → I s')
    (h : Reachable P.Step init s) (hinit : I init) (hsettled : init.Settled) : I s := by
  obtain ⟨l, hl⟩ := h
  have hfree : Reachable (Restrict P.Step fun _ _ => True) init s :=
    ⟨l, hl.mono fun _ _ _ hstep => ⟨hstep, trivial⟩⟩
  exact invariant_of_micro (fun s o s' hs _ => hI s o s' hs) hfree hinit hsettled

/-! ### Locks -/

/-- The locks held after a request, from those held before it. -/
def Request.after (H : L → Prop) : Request L C X → L → Prop
  | .Acquire l, m => m = l ∨ H m
  | .Release l, m => m ≠ l ∧ H m
  | _, m => H m

/-- Where a request is in order: a lock is acquired once, and the others name a lock that is
held and that goes with the condition variable. -/
def Request.InOrder (lockOf : C → L) (H : L → Prop) : Request L C X → Prop
  | .Acquire l => ¬ H l
  | .Wait c l | .Signal c l | .Broadcast c l => l = lockOf c ∧ H l
  | _ => True

namespace Request

variable (lockOf : C → L) (H : L → Prop) (c : C) (x : X) (i v : Int) (l m : L)

@[simp] theorem after_Acquire :
    (Acquire l : Request L C X).after H m ↔ m = l ∨ H m := Iff.rfl

@[simp] theorem after_Release :
    (Release l : Request L C X).after H m ↔ m ≠ l ∧ H m := Iff.rfl

@[simp] theorem after_Wait : (Wait c l : Request L C X).after H m ↔ H m := Iff.rfl

@[simp] theorem after_Signal : (Signal c l : Request L C X).after H m ↔ H m := Iff.rfl

@[simp] theorem after_Broadcast : (Broadcast c l : Request L C X).after H m ↔ H m := Iff.rfl

@[simp] theorem after_Get : (Get x i : Request L C X).after H m ↔ H m := Iff.rfl

@[simp] theorem after_Set : (Set x i v : Request L C X).after H m ↔ H m := Iff.rfl

@[simp] theorem inOrder_Acquire :
    (Acquire l : Request L C X).InOrder lockOf H ↔ ¬ H l := Iff.rfl

@[simp] theorem inOrder_Release :
    (Release l : Request L C X).InOrder lockOf H := trivial

@[simp] theorem inOrder_Wait :
    (Wait c l : Request L C X).InOrder lockOf H ↔ l = lockOf c ∧ H l := Iff.rfl

@[simp] theorem inOrder_Signal :
    (Signal c l : Request L C X).InOrder lockOf H ↔ l = lockOf c ∧ H l := Iff.rfl

@[simp] theorem inOrder_Broadcast :
    (Broadcast c l : Request L C X).InOrder lockOf H ↔ l = lockOf c ∧ H l := Iff.rfl

@[simp] theorem inOrder_Get : (Get x i : Request L C X).InOrder lockOf H := trivial

@[simp] theorem inOrder_Set : (Set x i v : Request L C X).InOrder lockOf H := trivial

@[simp] theorem inOrder_Exit : (Exit : Request L C X).InOrder lockOf H := trivial

end Request

/-- **The locks each location holds.** A lock may be released that is not held. -/
structure Discipline (P : Program L C X Loc) (held : Loc → L → Prop) (lockOf : C → L) : Prop where
  inOrder : ∀ p, (P.request p).InOrder lockOf (held p)
  after : ∀ p a r, P.request p ≠ .Exit →
    ∀ m, held (P.next p a r) m ↔ (P.request p).after (held p) m

/-- The thread holds the lock: its location does, and it is not waiting with it. -/
def Holds (P : Program L C X Loc) (held : Loc → L → Prop) (s : State T L C X Loc) (t : T) (m : L) :
    Prop :=
  held (s.loc t) m ∧ (s.mode t = .running ∨ ∀ c, P.request (s.loc t) ≠ .Wait c m)

/-- **The server agrees with the locations** on who owns what and who waits where. -/
structure Locked (P : Program L C X Loc) (held : Loc → L → Prop) (lockOf : C → L)
    (s : State T L C X Loc) : Prop where
  owner : ∀ m t, s.owner m = some t ↔ Holds P held s t m
  queue : ∀ m t, t ∈ s.queue m ↔ s.mode t = .queued m
  waiters : ∀ c t, t ∈ s.waiters c ↔ s.mode t = .asleep c
  queueNodup : ∀ m, (s.queue m).Nodup
  waitersNodup : ∀ c, (s.waiters c).Nodup
  queued : ∀ m t, s.mode t = .queued m →
    P.request (s.loc t) = .Acquire m ∨ ∃ c, P.request (s.loc t) = .Wait c m
  asleep : ∀ c t, s.mode t = .asleep c → P.request (s.loc t) = .Wait c (lockOf c)

namespace Locked

variable {P : Program L C X Loc} {held : Loc → L → Prop} {lockOf : C → L}
  {s s' : State T L C X Loc}

theorem init (val : X → Int → Int) (loc : T → Loc) (hnone : ∀ t m, ¬ held (loc t) m) :
    Locked P held lockOf (State.init val loc) where
  owner m t := by simp [State.init, Holds, hnone]
  queue m t := by simp [State.init]
  waiters c t := by simp [State.init]
  queueNodup m := by simp [State.init]
  waitersNodup c := by simp [State.init]
  queued m t h := by cases h
  asleep c t h := by cases h

variable (h : Locked P held lockOf s)

include h

/-- A running thread owns what its location holds. -/
theorem owner_of_held {t : T} {m : L} (hrun : s.mode t = .running) (hheld : held (s.loc t) m) :
    s.owner m = some t :=
  (h.owner m t).mpr ⟨hheld, .inl hrun⟩

/-- A lock is held once. -/
theorem holds_unique {t u : T} {m : L} (ht : Holds P held s t m) (hu : Holds P held s u m) : t = u :=
  Option.some.inj (((h.owner m t).mpr ht).symm.trans ((h.owner m u).mpr hu))

/-- A running thread goes on, and holds the same locks. -/
theorem goOn {t : T} (a : Int) (r : Nat) (hrun : s.mode t = .running)
    (hsame : ∀ m, held (P.next (s.loc t) a r) m ↔ held (s.loc t) m) :
    Locked P held lockOf (s.goOn P t a r) := by
  have hself : (s.goOn P t a r).loc t = P.next (s.loc t) a r := Function.update_self _ _ _
  have hother : ∀ u, u ≠ t → (s.goOn P t a r).loc u = s.loc u := fun u hu =>
    Function.update_of_ne hu _ _
  have hmode : (s.goOn P t a r).mode = s.mode := rfl
  refine ⟨fun m u => ?_, h.queue, h.waiters, h.queueNodup, h.waitersNodup, fun m u hu => ?_,
    fun c u hu => ?_⟩
  · show s.owner m = some u ↔ _
    rw [h.owner m u]
    unfold Holds
    rw [hmode]
    by_cases hut : u = t
    · subst hut
      rw [hself, hsame m]
      simp [hrun]
    · rw [hother u hut]
  · rw [hmode] at hu
    have hut : u ≠ t := by
      rintro rfl
      exact absurd (hrun.symm.trans hu) nofun
    rw [hother u hut]
    exact h.queued m u hu
  · rw [hmode] at hu
    have hut : u ≠ t := by
      rintro rfl
      exact absurd (hrun.symm.trans hu) nofun
    rw [hother u hut]
    exact h.asleep c u hu

/-- One thread takes or gives up one lock. -/
theorem owner_changed {t : T} {l : L} {o : Option T}
    (howner : s'.owner = Function.update s.owner l o)
    (hother : ∀ m u, u ≠ t ∨ m ≠ l → (Holds P held s' u m ↔ Holds P held s u m))
    (hchange : (o = some t ∧ s.owner l = none ∧ Holds P held s' t l) ∨
      (o = none ∧ s.owner l = some t ∧ ¬ Holds P held s' t l)) (m : L) (u : T) :
    s'.owner m = some u ↔ Holds P held s' u m := by
  rw [howner]
  by_cases hml : m = l
  · subst hml
    rw [Function.update_self]
    by_cases hut : u = t
    · subst hut
      rcases hchange with ⟨rfl, -, hnow⟩ | ⟨rfl, -, hnow⟩
      · simp [hnow]
      · simp [hnow]
    · rw [hother m u (.inl hut), ← h.owner m u]
      have htu : t ≠ u := fun heq => hut heq.symm
      rcases hchange with ⟨rfl, hwas, -⟩ | ⟨rfl, hwas, -⟩
      · simp [hwas, htu]
      · simp [hwas, htu]
  · rw [Function.update_of_ne hml, hother m u (.inr hml)]
    exact h.owner m u

/-- A running thread goes on, and takes or gives up a lock by that. -/
theorem goOn_owner {t : T} {l : L} {o : Option T} (r : Nat) (hrun : s.mode t = .running)
    (hother : ∀ m, m ≠ l → (held (P.next (s.loc t) 0 r) m ↔ held (s.loc t) m))
    (hchange : (o = some t ∧ s.owner l = none ∧ held (P.next (s.loc t) 0 r) l) ∨
      (o = none ∧ s.owner l = some t ∧ ¬ held (P.next (s.loc t) 0 r) l)) :
    Locked P held lockOf ((s.setOwner l o).goOn P t 0 r) := by
  let s' := (s.setOwner l o).goOn P t 0 r
  have hself : s'.loc t = P.next (s.loc t) 0 r := Function.update_self _ _ _
  have hloc : ∀ u, u ≠ t → s'.loc u = s.loc u := fun u hu => Function.update_of_ne hu _ _
  have hmode : s'.mode = s.mode := rfl
  have hne : ∀ {u} {md : Mode L C}, s.mode u = md → md ≠ .running → u ≠ t := by
    rintro u md hu hmd rfl
    exact hmd (hu.symm.trans hrun)
  have hself' : ∀ m, Holds P held s' t m ↔ held (P.next (s.loc t) 0 r) m := fun m => by
    unfold Holds
    rw [hself, hmode]
    simp [hrun]
  refine ⟨h.owner_changed (t := t) (l := l) (o := o) rfl ?_ ?_, h.queue, h.waiters, h.queueNodup,
    h.waitersNodup, fun m u hu => ?_, fun c u hu => ?_⟩
  · intro m u hmu
    by_cases hut : u = t
    · subst hut
      have hml : m ≠ l := hmu.resolve_left fun hne => hne rfl
      show Holds P held s' u m ↔ _
      rw [hself' m, hother m hml]
      simp [Holds, hrun]
    · show held (s'.loc u) m ∧ _ ↔ _
      rw [hloc u hut]
      rfl
  · rw [← hself' l] at hchange
    exact hchange
  · show P.request (s'.loc u) = _ ∨ ∃ c, P.request (s'.loc u) = _
    rw [hloc u (hne hu nofun)]
    exact h.queued m u hu
  · show P.request (s'.loc u) = _
    rw [hloc u (hne hu nofun)]
    exact h.asleep c u hu

/-- A running thread joins the queue of a lock. -/
theorem enqueue {t : T} {l : L} (hrun : s.mode t = .running)
    (hreq : P.request (s.loc t) = .Acquire l) : Locked P held lockOf (s.enqueue l t) := by
  have hself : (s.enqueue l t).mode t = .queued l := Function.update_self _ _ _
  have hmode : ∀ u, u ≠ t → (s.enqueue l t).mode u = s.mode u := fun u hu =>
    Function.update_of_ne hu _ _
  have hqueue : ∀ m, (s.enqueue l t).queue m = if m = l then s.queue l ++ [t] else s.queue m :=
    fun m => Function.update_apply _ _ _ _
  have hnot : ∀ m, t ∉ s.queue m := fun m ht => by
    cases hrun.symm.trans ((h.queue m t).mp ht)
  refine ⟨fun m u => ?_, fun m u => ?_, fun c u => ?_, fun m => ?_, h.waitersNodup,
    fun m u hu => ?_, fun c u hu => ?_⟩
  · show s.owner m = some u ↔ held (s.loc u) m ∧ _
    rw [h.owner m u]
    by_cases hut : u = t
    · subst hut
      simp [Holds, State.enqueue, hrun, hreq]
    · rw [hmode u hut]
      rfl
  · rw [hqueue m]
    by_cases hut : u = t
    · subst hut
      rw [hself]
      by_cases hml : m = l
      · simp [hml]
      · rw [if_neg hml]
        exact ⟨fun hu => absurd hu (hnot m), fun hu => by cases hu; exact absurd rfl hml⟩
    · rw [hmode u hut, ← h.queue m u]
      split
      · rename_i hml
        simp [hml, hut]
      · rfl
  · show u ∈ s.waiters c ↔ _
    rw [h.waiters c u]
    by_cases hut : u = t
    · subst hut
      simp [hself, hrun]
    · rw [hmode u hut]
  · rw [hqueue m]
    split
    · refine List.nodup_append.mpr ⟨h.queueNodup l, List.nodup_singleton t, ?_⟩
      rintro u hu _ ht rfl
      rw [List.mem_singleton.mp ht] at hu
      exact hnot l hu
    · exact h.queueNodup m
  · show P.request (s.loc u) = _ ∨ ∃ c, P.request (s.loc u) = _
    by_cases hut : u = t
    · subst hut
      cases hself.symm.trans hu
      exact .inl hreq
    · exact h.queued m u ((hmode u hut).symm.trans hu)
  · show P.request (s.loc u) = _
    by_cases hut : u = t
    · subst hut
      cases hself.symm.trans hu
    · exact h.asleep c u ((hmode u hut).symm.trans hu)

/-- A running thread goes to sleep, and gives the lock up. -/
theorem sleep {t : T} {c : C} {l : L} (hrun : s.mode t = .running)
    (hreq : P.request (s.loc t) = .Wait c l) (hlock : l = lockOf c) (howner : s.owner l = some t) :
    Locked P held lockOf ((s.setOwner l none).sleep c t) := by
  let s' := (s.setOwner l none).sleep c t
  have hself : s'.mode t = .asleep c := Function.update_self _ _ _
  have hmode : ∀ u, u ≠ t → s'.mode u = s.mode u := fun u hu => Function.update_of_ne hu _ _
  have hwaiters : ∀ d, s'.waiters d = if d = c then s.waiters c ++ [t] else s.waiters d :=
    fun d => Function.update_apply _ _ _ _
  have hnot : ∀ d, t ∉ s.waiters d := fun d ht => by
    cases hrun.symm.trans ((h.waiters d t).mp ht)
  refine ⟨h.owner_changed (t := t) (l := l) (o := none) rfl ?_ ?_, fun m u => ?_, fun d u => ?_,
    h.queueNodup, fun d => ?_, fun m u hu => ?_, fun d u hu => ?_⟩
  · intro m u hmu
    show held (s.loc u) m ∧ (s'.mode u = .running ∨ ∀ d, P.request (s.loc u) ≠ .Wait d m) ↔ _
    by_cases hut : u = t
    · subst hut
      have hml : m ≠ l := hmu.resolve_left fun hne => hne rfl
      have hlm : l ≠ m := fun heq => hml heq.symm
      rw [hself]
      unfold Holds
      rw [hreq, hrun]
      simp [hlm]
    · rw [hmode u hut]
      rfl
  · refine .inr ⟨rfl, howner, ?_⟩
    rintro ⟨-, hrun' | hne⟩
    · cases hself.symm.trans hrun'
    · exact hne c hreq
  · show u ∈ s.queue m ↔ _
    rw [h.queue m u]
    by_cases hut : u = t
    · subst hut
      rw [hself, hrun]
      simp
    · show _ ↔ s'.mode u = _
      rw [hmode u hut]
  · show u ∈ s'.waiters d ↔ s'.mode u = _
    rw [hwaiters d]
    by_cases hut : u = t
    · subst hut
      rw [hself]
      by_cases hdc : d = c
      · simp [hdc]
      · rw [if_neg hdc]
        exact ⟨fun hu => absurd hu (hnot d), fun hu => by cases hu; exact absurd rfl hdc⟩
    · rw [hmode u hut, ← h.waiters d u]
      split
      · rename_i hdc
        simp [hdc, hut]
      · rfl
  · show (s'.waiters d).Nodup
    rw [hwaiters d]
    split
    · refine List.nodup_append.mpr ⟨h.waitersNodup c, List.nodup_singleton t, ?_⟩
      rintro u hu _ ht rfl
      rw [List.mem_singleton.mp ht] at hu
      exact hnot c hu
    · exact h.waitersNodup d
  · show P.request (s.loc u) = _ ∨ ∃ c, P.request (s.loc u) = _
    by_cases hut : u = t
    · subst hut
      cases hself.symm.trans hu
    · exact h.queued m u ((hmode u hut).symm.trans hu)
  · show P.request (s.loc u) = _
    by_cases hut : u = t
    · subst hut
      cases hself.symm.trans hu
      rw [hreq, hlock]
    · exact h.asleep d u ((hmode u hut).symm.trans hu)

/-- Waiters join the queue of their lock. -/
theorem wake {c : C} {l : L} (n : Nat) (hlock : l = lockOf c) :
    Locked P held lockOf (s.wake c l n) := by
  have hin : ∀ u, u ∈ (s.waiters c).take n → s.mode u = .asleep c := fun u hu =>
    (h.waiters c u).mp (List.mem_of_mem_take hu)
  have hmode : ∀ u, (s.wake c l n).mode u =
      if u ∈ (s.waiters c).take n then .queued l else s.mode u := fun u => rfl
  have hqueue : ∀ m, (s.wake c l n).queue m =
      if m = l then s.queue l ++ (s.waiters c).take n else s.queue m :=
    fun m => Function.update_apply _ _ _ _
  have hwaiters : ∀ d, (s.wake c l n).waiters d =
      if d = c then (s.waiters c).drop n else s.waiters d :=
    fun d => Function.update_apply _ _ _ _
  have hsplit : ∀ u, u ∈ s.waiters c ↔ u ∈ (s.waiters c).take n ∨ u ∈ (s.waiters c).drop n :=
    fun u => by rw [← List.mem_append, List.take_append_drop]
  have hnodup : ((s.waiters c).take n ++ (s.waiters c).drop n).Nodup := by
    rw [List.take_append_drop]
    exact h.waitersNodup c
  have hdisjoint : ∀ u, u ∈ (s.waiters c).take n → u ∉ (s.waiters c).drop n := fun u hu hu' =>
    (List.nodup_append.mp hnodup).2.2 u hu u hu' rfl
  refine ⟨fun m u => ?_, fun m u => ?_, fun d u => ?_, fun m => ?_, fun d => ?_,
    fun m u hu => ?_, fun d u hu => ?_⟩
  · show s.owner m = some u ↔ held (s.loc u) m ∧ _
    rw [h.owner m u, hmode]
    unfold Holds
    by_cases hu : u ∈ (s.waiters c).take n
    · rw [if_pos hu, hin u hu]
      simp [State.wake]
    · rw [if_neg hu]
      rfl
  · rw [hqueue, hmode]
    by_cases hu : u ∈ (s.waiters c).take n
    · rw [if_pos hu]
      by_cases hml : m = l
      · simp [hml, hu]
      · have hlm : l ≠ m := fun heq => hml heq.symm
        rw [if_neg hml, h.queue m u, hin u hu]
        simp [hlm]
    · rw [if_neg hu, ← h.queue m u]
      split
      · rename_i hml
        simp [hml, hu]
      · rfl
  · rw [hwaiters, hmode]
    by_cases hdc : d = c
    · rw [if_pos hdc, hdc]
      by_cases hu : u ∈ (s.waiters c).take n
      · simp [hu, hdisjoint u hu]
      · rw [if_neg hu, ← h.waiters c u, hsplit u]
        simp [hu]
    · rw [if_neg hdc, h.waiters d u]
      by_cases hu : u ∈ (s.waiters c).take n
      · have hcd : c ≠ d := fun heq => hdc heq.symm
        rw [if_pos hu, hin u hu]
        simp [hcd]
      · rw [if_neg hu]
  · rw [hqueue]
    split
    · refine List.nodup_append.mpr ⟨h.queueNodup l, (List.nodup_append.mp hnodup).1, ?_⟩
      rintro u hu _ hu' rfl
      cases ((h.queue l u).mp hu).symm.trans (hin u hu')
    · exact h.queueNodup m
  · rw [hwaiters]
    split
    · exact (List.nodup_append.mp hnodup).2.1
    · exact h.waitersNodup d
  · show P.request (s.loc u) = _ ∨ ∃ c, P.request (s.loc u) = _
    rw [hmode] at hu
    split at hu
    · rename_i hmem
      cases hu
      rw [hlock]
      exact .inr ⟨c, h.asleep c u (hin u hmem)⟩
    · exact h.queued m u hu
  · show P.request (s.loc u) = _
    rw [hmode] at hu
    split at hu
    · cases hu
    · exact h.asleep d u hu

/-- The first of the queue is given the lock. -/
theorem grantTo (hP : Discipline P held lockOf) {l : L} {u : T} {q : List T}
    (howner : s.owner l = none) (hq : s.queue l = u :: q) :
    Locked P held lockOf (s.grantTo P l u q) := by
  let s' := s.grantTo P l u q
  have hmodeu : s.mode u = .queued l := (h.queue l u).mp (by rw [hq]; exact List.mem_cons_self)
  have hself : s'.mode u = .running := Function.update_self _ _ _
  have hmode : ∀ v, v ≠ u → s'.mode v = s.mode v := fun v hv => Function.update_of_ne hv _ _
  have hlocu : s'.loc u = P.next (s.loc u) 0 0 := Function.update_self _ _ _
  have hloc : ∀ v, v ≠ u → s'.loc v = s.loc v := fun v hv => Function.update_of_ne hv _ _
  have hqueue : ∀ m, s'.queue m = if m = l then q else s.queue m :=
    fun m => Function.update_apply _ _ _ _
  have hnodup : (u :: q).Nodup := hq ▸ h.queueNodup l
  -- what the answer adds to the locks of `u` is this one
  have hheld : ∀ m, held (s'.loc u) m ↔ m = l ∨ held (s.loc u) m := fun m => by
    rw [hlocu]
    rcases h.queued l u hmodeu with hreq | ⟨c, hreq⟩
    · rw [hP.after _ 0 0 (by rw [hreq]; nofun), hreq]
      rfl
    · have hheld := (hP.inOrder (s.loc u))
      rw [hP.after _ 0 0 (by rw [hreq]; nofun)]
      rw [hreq] at hheld ⊢
      exact ⟨.inr, fun hm => hm.elim (fun heq => heq ▸ hheld.2) id⟩
  refine ⟨h.owner_changed (t := u) (l := l) (o := some u) rfl ?_ (.inl ⟨rfl, howner, ?_⟩),
    fun m v => ?_, fun c v => ?_, fun m => ?_, h.waitersNodup, fun m v hv => ?_,
    fun c v hv => ?_⟩
  · intro m v hmv
    show held (s'.loc v) m ∧ (s'.mode v = .running ∨ ∀ c, P.request (s'.loc v) ≠ .Wait c m) ↔ _
    by_cases hvu : v = u
    · subst hvu
      have hml : m ≠ l := hmv.resolve_left fun hne => hne rfl
      have hlm : l ≠ m := fun heq => hml heq.symm
      rw [hheld m, hself]
      unfold Holds
      rw [hmodeu]
      rcases h.queued l v hmodeu with hreq | ⟨c, hreq⟩
      · simp [hreq, hml]
      · simp [hreq, hml, hlm]
    · rw [hmode v hvu, hloc v hvu]
      rfl
  · exact ⟨(hheld l).mpr (.inl rfl), .inl hself⟩
  · show v ∈ s'.queue m ↔ s'.mode v = _
    rw [hqueue]
    by_cases hvu : v = u
    · subst hvu
      rw [hself]
      by_cases hml : m = l
      · rw [if_pos hml]
        exact ⟨fun hv => absurd hv (List.nodup_cons.mp hnodup).1, nofun⟩
      · have hlm : l ≠ m := fun heq => hml heq.symm
        rw [if_neg hml, h.queue m v, hmodeu]
        simp [hlm]
    · rw [hmode v hvu, ← h.queue m v]
      split
      · rename_i hml
        rw [hml, hq]
        simp [hvu]
      · rfl
  · show v ∈ s.waiters c ↔ s'.mode v = _
    rw [h.waiters c v]
    by_cases hvu : v = u
    · subst hvu
      rw [hself, hmodeu]
      simp
    · rw [hmode v hvu]
  · show (s'.queue m).Nodup
    rw [hqueue]
    split
    · exact (List.nodup_cons.mp hnodup).2
    · exact h.queueNodup m
  · show P.request (s'.loc v) = _ ∨ ∃ c, P.request (s'.loc v) = _
    by_cases hvu : v = u
    · subst hvu
      cases hself.symm.trans hv
    · rw [hloc v hvu]
      exact h.queued m v ((hmode v hvu).symm.trans hv)
  · show P.request (s'.loc v) = _
    by_cases hvu : v = u
    · subst hvu
      cases hself.symm.trans hv
    · rw [hloc v hvu]
      exact h.asleep c v ((hmode v hvu).symm.trans hv)

/-- Only the values of the variables change. -/
theorem write (x : X) (i v : Int) : Locked P held lockOf (s.write P x i v) :=
  ⟨h.owner, h.queue, h.waiters, h.queueNodup, h.waitersNodup, h.queued, h.asleep⟩

end Locked

/-- **The server agrees with the locations after each piece of work.** -/
theorem locked_micro {P : Program L C X Loc} {held : Loc → L → Prop} {lockOf : C → L}
    (hP : Discipline P held lockOf) {s s' : State T L C X Loc} {o : Option T}
    (h : Locked P held lockOf s) (hm : Micro P s o s') : Locked P held lockOf s' := by
  cases hm with
  | @acquire t l hrun hreq howner hqueue =>
    have hafter := hP.after (s.loc t) 0 0 (by rw [hreq]; nofun)
    rw [hreq] at hafter
    refine h.goOn_owner 0 hrun (fun m hm => ?_) (.inl ⟨rfl, howner, (hafter l).mpr (.inl rfl)⟩)
    exact (hafter m).trans ⟨fun hm' => hm'.resolve_left hm, .inr⟩
  | enqueue hrun hreq howner => exact h.enqueue hrun hreq
  | @release t l r hrun hreq howner =>
    have hafter := hP.after (s.loc t) 0 r (by rw [hreq]; nofun)
    rw [hreq] at hafter
    refine h.goOn_owner r hrun (fun m hm => ?_)
      (.inr ⟨rfl, howner, fun hl => ((hafter l).mp hl).1 rfl⟩)
    exact (hafter m).trans ⟨fun hm' => hm'.2, fun hm' => ⟨hm, hm'⟩⟩
  | @sleep t c l hrun hreq howner =>
    have hlock := hP.inOrder (s.loc t)
    rw [hreq] at hlock
    exact h.sleep hrun hreq hlock.1 howner
  | @wake t c l n r hrun hreq howner =>
    have hlock := hP.inOrder (s.loc t)
    have hafter := hP.after (s.loc t) 0 r (by rcases hreq with ⟨hreq, -⟩ | ⟨hreq, -⟩ <;> simp [hreq])
    have hl : l = lockOf c ∧ ∀ m, held (P.next (s.loc t) 0 r) m ↔ held (s.loc t) m := by
      rcases hreq with ⟨hreq, -⟩ | ⟨hreq, -⟩
      · rw [hreq] at hlock hafter
        exact ⟨hlock.1, hafter⟩
      · rw [hreq] at hlock hafter
        exact ⟨hlock.1, hafter⟩
    refine (h.wake n hl.1).goOn 0 r ?_ hl.2
    have hnot : t ∉ (s.waiters c).take n := fun ht => by
      cases hrun.symm.trans ((h.waiters c t).mp (List.mem_of_mem_take ht))
    exact (if_neg hnot).trans hrun
  | @refused t l r hrun hreq howner =>
    have hafter := hP.after (s.loc t) 0 r fun hq => by rw [hq] at hreq; exact hreq.elim
    have hnot : ¬ held (s.loc t) l := fun hl => howner (h.owner_of_held hrun hl)
    refine h.goOn 0 r hrun fun m => (hafter m).trans ?_
    cases hq : P.request (s.loc t) with
    | Release m' =>
      rw [hq] at hreq
      cases (show m' = l from hreq)
      exact ⟨And.right, fun hm => ⟨fun heq => hnot (heq ▸ hm), hm⟩⟩
    | Acquire m' =>
      rw [hq] at hreq
      exact hreq.elim
    | _ => rfl
  | @get t x i r hrun hreq =>
    have hafter := hP.after (s.loc t) (P.get s.val x i) r (by rw [hreq]; nofun)
    rw [hreq] at hafter
    exact h.goOn _ r hrun hafter
  | @set t x i v r hrun hreq =>
    have hafter := hP.after (s.loc t) 0 r (by rw [hreq]; nofun)
    rw [hreq] at hafter
    exact (h.write x i v).goOn 0 r hrun hafter
  | grant howner hqueue => exact h.grantTo hP howner hqueue

/-! ### Variables -/

/-- The answer to a request, and the variables after it. -/
def Program.effect (P : Program L C X Loc) (q : Request L C X) (val : X → Int → Int) :
    Int × (X → Int → Int) :=
  match q with
  | .Get x i => (P.get val x i, val)
  | .Set x i v => (0, P.set val x i v)
  | _ => (0, val)

/-- **What a piece of work does to the thread that asked**: it waits now, or it goes on. -/
theorem micro_some {P : Program L C X Loc} {s s' : State T L C X Loc} {t : T}
    (hwaiters : ∀ c u, u ∈ s.waiters c → s.mode u ≠ .running) (h : Micro P s (some t) s') :
    s.mode t = .running ∧
      ((s'.loc = s.loc ∧ s'.val = s.val ∧ s'.mode t ≠ .running ∧ ∀ u, u ≠ t → s'.mode u = s.mode u) ∨
        ∃ r, s'.loc = Function.update s.loc t
            (P.next (s.loc t) (P.effect (P.request (s.loc t)) s.val).1 r) ∧
          s'.val = (P.effect (P.request (s.loc t)) s.val).2 ∧ s'.mode t = .running ∧
          ∀ u, s'.mode u = .running ↔ s.mode u = .running) := by
  cases h with
  | acquire hrun hreq howner hqueue =>
    refine ⟨hrun, .inr ⟨0, ?_, ?_, hrun, fun u => .rfl⟩⟩
    · rw [hreq]
      rfl
    · rw [hreq]
      rfl
  | @enqueue _ _ l hrun hreq howner =>
    refine ⟨hrun, .inl ⟨rfl, rfl, ?_, fun u hu => Function.update_of_ne hu _ _⟩⟩
    show Function.update s.mode t (.queued l) t ≠ _
    simp
  | release r hrun hreq howner =>
    refine ⟨hrun, .inr ⟨r, ?_, ?_, hrun, fun u => .rfl⟩⟩
    · rw [hreq]
      rfl
    · rw [hreq]
      rfl
  | @sleep _ c _ hrun hreq howner =>
    refine ⟨hrun, .inl ⟨rfl, rfl, ?_, fun u hu => Function.update_of_ne hu _ _⟩⟩
    show Function.update s.mode t (.asleep c) t ≠ _
    simp
  | @wake _ c l n r hrun hreq howner =>
    have hmode : ∀ u, (if u ∈ (s.waiters c).take n then Mode.queued l else s.mode u) = .running ↔
        s.mode u = .running := fun u => by
      split
      · rename_i hu
        exact ⟨nofun, fun hu' => absurd hu' (hwaiters c u (List.mem_of_mem_take hu))⟩
      · rfl
    refine ⟨hrun, .inr ⟨r, ?_, ?_, (hmode t).mpr hrun, hmode⟩⟩
    all_goals
      rcases hreq with ⟨hreq, -⟩ | ⟨hreq, -⟩
      all_goals
        rw [hreq]
        rfl
  | @refused _ l r hrun hreq howner =>
    refine ⟨hrun, .inr ⟨r, ?_, ?_, hrun, fun u => .rfl⟩⟩
    all_goals
      cases hq : P.request (s.loc t) with
      | Get x i => rw [hq] at hreq; exact hreq.elim
      | Set x i v => rw [hq] at hreq; exact hreq.elim
      | _ => rfl
  | get r hrun hreq =>
    refine ⟨hrun, .inr ⟨r, ?_, ?_, hrun, fun u => .rfl⟩⟩
    · rw [hreq]
      rfl
    · rw [hreq]
      rfl
  | set r hrun hreq =>
    refine ⟨hrun, .inr ⟨r, ?_, ?_, hrun, fun u => .rfl⟩⟩
    · rw [hreq]
      rfl
    · rw [hreq]
      rfl

/-- **One thread moves at most**: the one that asked and was answered, or the one that was
given a lock. A thread that waits was woken before. -/
theorem micro_moves {P : Program L C X Loc} {held : Loc → L → Prop} {lockOf : C → L}
    (hP : Discipline P held lockOf) {s s' : State T L C X Loc} {o : Option T}
    (hlocked : Locked P held lockOf s) (hm : Micro P s o s') :
    (s'.loc = s.loc ∧ s'.val = s.val) ∨
      ∃ t r, s'.loc = Function.update s.loc t
          (P.next (s.loc t) (P.effect (P.request (s.loc t)) s.val).1 r) ∧
        s'.val = (P.effect (P.request (s.loc t)) s.val).2 ∧
        ((o = some t ∧ s.mode t = .running ∧ ∀ c l, P.request (s.loc t) ≠ .Wait c l) ∨
          ∃ l, s.mode t = .queued l ∧
            (P.request (s.loc t) = .Acquire l ∨ ∃ c, P.request (s.loc t) = .Wait c l)) := by
  have hwaiters : ∀ c u, u ∈ s.waiters c → s.mode u ≠ .running := fun c u hu hrun => by
    cases ((hlocked.waiters c u).mp hu).symm.trans hrun
  cases o with
  | none =>
    cases hm with
    | @grant v l q howner hqueue =>
      have hv : s.mode v = .queued l :=
        (hlocked.queue l v).mp (by rw [hqueue]; exact List.mem_cons_self)
      have hreq := hlocked.queued l v hv
      have heffect : P.effect (P.request (s.loc v)) s.val = (0, s.val) := by
        rcases hreq with hreq | ⟨c, hreq⟩
        · rw [hreq]
          rfl
        · rw [hreq]
          rfl
      refine .inr ⟨v, 0, ?_, ?_, .inr ⟨l, hv, hreq⟩⟩
      · rw [heffect]
        rfl
      · rw [heffect]
        rfl
  | some t =>
    obtain ⟨hrun, ⟨hloc, hval, -⟩ | ⟨r, hloc, hval, hmode, -⟩⟩ := micro_some hwaiters hm
    · exact .inl ⟨hloc, hval⟩
    · refine .inr ⟨t, r, hloc, hval, .inl ⟨rfl, hrun, fun c l hreq => ?_⟩⟩
      -- a running thread that waits owns the lock, and goes to sleep
      have hheld := hP.inOrder (s.loc t)
      rw [hreq] at hheld
      have howner := hlocked.owner_of_held hrun hheld.2
      cases hm with
      | sleep hrun' hreq' =>
        rw [show ∀ S : State T L C X Loc, (S.sleep _ t).mode t = .asleep _ from
          fun S => Function.update_self t _ S.mode] at hmode
        cases hmode
      | refused r' hrun' hreq' hnot =>
        rw [hreq] at hreq'
        exact hnot (hreq' ▸ howner)
      | wake r' hrun' hreq' =>
        rcases hreq' with ⟨hreq', -⟩ | ⟨hreq', -⟩
        · cases hreq.symm.trans hreq'
        · cases hreq.symm.trans hreq'
      | acquire hrun' hreq' | enqueue hrun' hreq' | release _ hrun' hreq' | get _ hrun' hreq'
      | set _ hrun' hreq' => cases hreq.symm.trans hreq'

/-- What holds of the thread at each location, whatever it is answered. -/
theorem everywhere_micro {P : Program L C X Loc} {Q : T → Loc → Prop}
    (hQ : ∀ t p a r, Q t p → Q t (P.next p a r)) {s s' : State T L C X Loc} {o : Option T}
    (h : ∀ t, Q t (s.loc t)) (hm : Micro P s o s') (t : T) : Q t (s'.loc t) := by
  have hmoved : ∀ u a r, Q t (Function.update s.loc u (P.next (s.loc u) a r) t) := fun u a r => by
    by_cases htu : t = u
    · subst htu
      rw [Function.update_self]
      exact hQ t _ a r (h t)
    · rw [Function.update_of_ne htu]
      exact h t
  cases hm with
  | acquire | release _ | wake _ | refused _ | get _ | set _ | grant => exact hmoved _ _ _
  | enqueue | sleep => exact h t

/-- **What each location says of the variables** that the locks it holds guard. After `Wait` a
location says nothing: it has not looked again. -/
structure Claims (P : Program L C X Loc) (held : Loc → L → Prop) (guard : X → Option L)
    (claim : Loc → (X → Int → Int) → Prop) : Prop where
  stable : ∀ p val val', claim p val →
    (∀ x m, guard x = some m → held p m → val' x = val x) → claim p val'
  writes : ∀ p x i v, P.request p = .Set x i v → ∀ m, guard x = some m → held p m
  wait : ∀ p c m val a r, P.request p = .Wait c m → claim (P.next p a r) val
  step : ∀ p val r, (∀ c m, P.request p ≠ .Wait c m) → claim p val →
    claim (P.next p (P.effect (P.request p) val).1 r) (P.effect (P.request p) val).2

/-- What the locations say is so. -/
def Known (P : Program L C X Loc) (claim : Loc → (X → Int → Int) → Prop) (s : State T L C X Loc) :
    Prop :=
  ∀ t, (s.mode t = .running ∨ ∀ c m, P.request (s.loc t) ≠ .Wait c m) → claim (s.loc t) s.val

/-- A request changes no variable that another thread guards. -/
theorem effect_guarded {P : Program L C X Loc} {held : Loc → L → Prop} {lockOf : C → L}
    {guard : X → Option L} {s : State T L C X Loc} (h : Locked P held lockOf s) {t u : T}
    (hut : u ≠ t) (hrun : s.mode t = .running)
    (hwrites : ∀ x i v, P.request (s.loc t) = .Set x i v → ∀ m, guard x = some m →
      held (s.loc t) m) {x : X} {m : L} (hguard : guard x = some m) (hholds : Holds P held s u m) :
    (P.effect (P.request (s.loc t)) s.val).2 x = s.val x := by
  cases hreq : P.request (s.loc t) with
  | Set y i v =>
    show P.set s.val y i v x = s.val x
    unfold Program.set
    split
    · by_cases hxy : x = y
      · subst hxy
        -- the writer owns the lock that `u` holds
        have howner := h.owner_of_held hrun (hwrites x i v hreq m hguard)
        have : some u = some t := ((h.owner m u).mpr hholds).symm.trans howner
        exact absurd (Option.some.inj this) hut
      · exact Function.update_of_ne hxy _ _
    · rfl
  | _ => rfl

/-- **What the locations say stays so.** -/
theorem known_micro {P : Program L C X Loc} {held : Loc → L → Prop} {lockOf : C → L}
    {guard : X → Option L} {claim : Loc → (X → Int → Int) → Prop}
    (hC : Claims P held guard claim) {s s' : State T L C X Loc} {o : Option T}
    (hlocked : Locked P held lockOf s) (h : Known P claim s) (hm : Micro P s o s') :
    Known P claim s' := by
  have hwaiters : ∀ c u, u ∈ s.waiters c → s.mode u ≠ .running := fun c u hu hrun => by
    cases ((hlocked.waiters c u).mp hu).symm.trans hrun
  cases o with
  | none =>
    cases hm with
    | @grant v l q howner hqueue =>
      intro u hu
      have hv : s.mode v = .queued l :=
        (hlocked.queue l v).mp (by rw [hqueue]; exact List.mem_cons_self)
      by_cases huv : u = v
      · subst huv
        show claim (Function.update s.loc u (P.next (s.loc u) 0 0) u) s.val
        rw [Function.update_self]
        rcases hlocked.queued l u hv with hreq | ⟨c, hreq⟩
        · have hstep := hC.step (s.loc u) s.val 0 (fun c m => by rw [hreq]; nofun)
            (h u (.inr fun c m => by rw [hreq]; nofun))
          rw [hreq] at hstep
          exact hstep
        · exact hC.wait _ c l _ _ _ hreq
      · have hloc : (s.grantTo P l v q).loc u = s.loc u := Function.update_of_ne huv _ _
        have hmode : (s.grantTo P l v q).mode u = s.mode u := Function.update_of_ne huv _ _
        rw [hloc, hmode] at hu
        rw [hloc]
        exact h u hu
  | some t =>
    obtain ⟨hrun, ⟨hloc, hval, hmode, hothers⟩ | ⟨r, hloc, hval, hmode, hothers⟩⟩ :=
      micro_some hwaiters hm
    · intro u hu
      rw [hloc, hval]
      by_cases hut : u = t
      · subst hut
        exact h u (.inl hrun)
      · rw [hothers u hut, hloc] at hu
        exact h u hu
    · intro u hu
      rw [hval]
      by_cases hut : u = t
      · subst hut
        rw [hloc, Function.update_self]
        by_cases hwait : ∃ c m, P.request (s.loc u) = .Wait c m
        · obtain ⟨c, m, hreq⟩ := hwait
          exact hC.wait _ c m _ _ _ hreq
        · exact hC.step _ _ r (fun c m hreq => hwait ⟨c, m, hreq⟩) (h u (.inl hrun))
      · rw [hloc, Function.update_of_ne hut] at hu ⊢
        rw [hothers u] at hu
        refine hC.stable _ _ _ (h u hu) fun x m hguard hheld => ?_
        refine effect_guarded hlocked hut hrun (fun x i v => hC.writes (s.loc t) x i v) hguard
          ⟨hheld, hu.imp id fun hw c => hw c m⟩

/-! ### Variables that count -/

/-- **Variables that count threads**: a location has a weight for each of them, and a request
that changes the weight of its thread writes the variable by as much. -/
structure Tallies (P : Program L C X Loc) (claim : Loc → (X → Int → Int) → Prop)
    (counted : X → Int → Prop) (weight : X → Int → Loc → Int) : Prop where
  range : ∀ x i, counted x i → 0 ≤ i ∧ i < P.size x
  write : ∀ x i v p val r, counted x i → P.request p = .Set x i v → claim p val →
    v + weight x i p = val x i + weight x i (P.next p 0 r)
  other : ∀ x i p a r, counted x i → (∀ v, P.request p ≠ .Set x i v) →
    weight x i (P.next p a r) = weight x i p

/-- The variables are the sums of the weights. -/
def Tallied [Fintype T] (counted : X → Int → Prop) (weight : X → Int → Loc → Int)
    (s : State T L C X Loc) : Prop :=
  ∀ x i, counted x i → s.val x i = ∑ t, weight x i (s.loc t)

/-- A sum over the threads, when one of them moves. -/
theorem sum_moved [Fintype T] (F : Loc → Int) (loc : T → Loc) (t : T) (p : Loc) :
    ∑ u, F (Function.update loc t p u) + F (loc t) = ∑ u, F (loc u) + F p := by
  rw [← Finset.add_sum_erase _ _ (Finset.mem_univ t),
    ← Finset.add_sum_erase Finset.univ (fun u => F (loc u)) (Finset.mem_univ t)]
  have hrest : ∑ u ∈ Finset.univ.erase t, F (Function.update loc t p u) =
      ∑ u ∈ Finset.univ.erase t, F (loc u) :=
    Finset.sum_congr rfl fun u hu => by rw [Function.update_of_ne (Finset.ne_of_mem_erase hu)]
  rw [hrest, Function.update_self]
  omega

/-- **The variables go on counting.** -/
theorem tallied_micro [Fintype T] {P : Program L C X Loc} {held : Loc → L → Prop} {lockOf : C → L}
    {claim : Loc → (X → Int → Int) → Prop} {counted : X → Int → Prop}
    {weight : X → Int → Loc → Int} (hT : Tallies P claim counted weight)
    {s s' : State T L C X Loc} {o : Option T} (hlocked : Locked P held lockOf s)
    (hknown : Known P claim s) (h : Tallied counted weight s) (hm : Micro P s o s') :
    Tallied counted weight s' := by
  have hwaiters : ∀ c u, u ∈ s.waiters c → s.mode u ≠ .running := fun c u hu hrun => by
    cases ((hlocked.waiters c u).mp hu).symm.trans hrun
  intro x i hx
  have hsum := h x i hx
  cases o with
  | none =>
    cases hm with
    | @grant v l q howner hqueue =>
      have hv : s.mode v = .queued l :=
        (hlocked.queue l v).mp (by rw [hqueue]; exact List.mem_cons_self)
      have hmoved := sum_moved (weight x i) s.loc v (P.next (s.loc v) 0 0)
      have hsame : weight x i (P.next (s.loc v) 0 0) = weight x i (s.loc v) := by
        refine hT.other x i _ 0 0 hx fun w hreq => ?_
        rcases hlocked.queued l v hv with hreq' | ⟨c, hreq'⟩
        · cases hreq.symm.trans hreq'
        · cases hreq.symm.trans hreq'
      show s.val x i = ∑ u, weight x i (Function.update s.loc v (P.next (s.loc v) 0 0) u)
      omega
  | some t =>
    obtain ⟨hrun, ⟨hloc, hval, -⟩ | ⟨r, hloc, hval, -⟩⟩ := micro_some hwaiters hm
    · rw [hloc, hval]
      exact hsum
    · rw [hloc, hval]
      have hmoved := sum_moved (weight x i) s.loc t
        (P.next (s.loc t) (P.effect (P.request (s.loc t)) s.val).1 r)
      by_cases hset : ∃ v, P.request (s.loc t) = .Set x i v
      · obtain ⟨v, hreq⟩ := hset
        have hwrite := hT.write x i v (s.loc t) s.val r hx hreq (hknown t (.inl hrun))
        have hnew : (P.effect (P.request (s.loc t)) s.val).2 x i = v := by
          rw [hreq]
          show P.set s.val x i v x i = v
          rw [Program.set, if_pos (hT.range x i hx), Function.update_self, Function.update_self]
        rw [hnew]
        rw [hreq] at hmoved ⊢
        have hzero : (P.effect (.Set x i v) s.val).1 = 0 := rfl
        rw [hzero] at hmoved ⊢
        omega
      · have hsame := hT.other x i (s.loc t) (P.effect (P.request (s.loc t)) s.val).1 r hx
          fun v hreq => hset ⟨v, hreq⟩
        have hkept : (P.effect (P.request (s.loc t)) s.val).2 x i = s.val x i := by
          cases hreq : P.request (s.loc t) with
          | Set y j v =>
            show P.set s.val y j v x i = s.val x i
            unfold Program.set
            split
            · by_cases hxy : x = y
              · subst hxy
                rw [Function.update_self]
                exact Function.update_of_ne (fun hij : i = j => hset ⟨v, by rw [hreq, hij]⟩) _ _
              · rw [Function.update_of_ne hxy]
            · rfl
          | _ => rfl
        rw [hkept]
        omega

end Lib.Monitor

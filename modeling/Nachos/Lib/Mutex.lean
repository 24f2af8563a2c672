import Mathlib.Data.List.Perm.Basic
import Nachos.Lib.Monitor

/-!
# A lock server that promises no order

The same threads and requests, over a server of which only mutual exclusion is known. A thread
that asks for a lock waits for it, though the lock may be free; a free lock is given to any one
that waits for it, at any time; and any waiter of a condition variable may be woken next. A
server that grants its locks in order is one of these (`reachable_serve`).

The rules of `Lib.Monitor` hold here too: what the server and the locations agree on
(`locked_serve`), what the locations know (`known_serve`), and what the variables count
(`tallied_serve`).
-/

namespace Lib.Monitor

set_option linter.unusedSectionVars false

variable {T L C X Loc : Type} [DecidableEq T] [DecidableEq L] [DecidableEq C] [DecidableEq X]

/-- What may happen: a running thread makes its request, with a random number; a free lock is
given to a thread that waits for it; a waiter comes first. -/
inductive Act (T L C : Type) where
  | ask (t : T) (r : Nat)
  | grant (l : L) (u : T)
  | prefer (c : C) (u : T)
deriving DecidableEq

/-- The thread that makes a request. -/
def Act.asker : Act T L C → Option T
  | .ask t _ => some t
  | _ => none

/-- The thread becomes the first of those that wait for the lock. -/
def State.first (s : State T L C X Loc) (l : L) (u : T) : State T L C X Loc :=
  { s with queue := Function.update s.queue l (u :: (s.queue l).erase u) }

/-- The thread becomes the first of the waiters. -/
def State.firstWaiter (s : State T L C X Loc) (c : C) (u : T) : State T L C X Loc :=
  { s with waiters := Function.update s.waiters c (u :: (s.waiters c).erase u) }

/-- The request of a thread. A lock that was released is given to nobody yet. -/
def Program.ask (P : Program L C X Loc) (s : State T L C X Loc) (t : T) (r : Nat) :
    Request L C X → Option (State T L C X Loc)
  | .Acquire l => some (s.enqueue l t)
  | .Release l =>
    if s.owner l = some t then some ((s.setOwner l none).goOn P t 0 r) else some (s.goOn P t 0 r)
  | .Wait c l =>
    if s.owner l = some t then some ((s.setOwner l none).sleep c t) else some (s.goOn P t 0 r)
  | .Signal c l =>
    if s.owner l = some t then some ((s.wake c l 1).goOn P t 0 r) else some (s.goOn P t 0 r)
  | .Broadcast c l =>
    if s.owner l = some t then some ((s.wake c l (s.waiters c).length).goOn P t 0 r)
    else some (s.goOn P t 0 r)
  | .Get x i => some (s.goOn P t (P.get s.val x i) r)
  | .Set x i v => some ((s.write P x i v).goOn P t 0 r)
  | .Exit => none

/-- What the server does at an event. -/
def Program.serve (P : Program L C X Loc) (s : State T L C X Loc) :
    Act T L C → Option (State T L C X Loc)
  | .ask t r => if s.mode t = .running then P.ask s t r (P.request (s.loc t)) else none
  | .grant l u =>
    if s.owner l = none ∧ u ∈ s.queue l then some (s.grantTo P l u ((s.queue l).erase u)) else none
  | .prefer c u => if u ∈ s.waiters c then some (s.firstWaiter c u) else none

/-- Any event that can happen. -/
def Program.Serve (P : Program L C X Loc) (s : State T L C X Loc) (e : Act T L C)
    (s' : State T L C X Loc) : Prop :=
  P.serve s e = some s'

theorem serve_ask {P : Program L C X Loc} {s s' : State T L C X Loc} {t : T} {r : Nat}
    (hrun : s.mode t = .running) (h : P.ask s t r (P.request (s.loc t)) = some s') :
    P.Serve s (.ask t r) s' :=
  (if_pos hrun).trans h

/-! ### An event is a piece of an orderly server's work -/

/-- The states differ in the order of those that wait. -/
structure Reordered (s s' : State T L C X Loc) : Prop where
  owner : s'.owner = s.owner
  queue : ∀ l, (s'.queue l).Perm (s.queue l)
  waiters : ∀ c, (s'.waiters c).Perm (s.waiters c)
  mode : s'.mode = s.mode
  val : s'.val = s.val
  loc : s'.loc = s.loc

section Reordered

variable {s s' : State T L C X Loc}

theorem Reordered.refl (s : State T L C X Loc) : Reordered s s :=
  ⟨rfl, fun _ => .refl _, fun _ => .refl _, rfl, rfl, rfl⟩

/-- A list of lists, one of which was put in another order. -/
theorem perm_update {α β : Type} [DecidableEq α] [DecidableEq β] (f : α → List β) {a : α} {u : β}
    (hu : u ∈ f a) (b : α) :
    (Function.update f a (u :: (f a).erase u) b).Perm (f b) := by
  by_cases hba : b = a
  · subst hba
    rw [Function.update_self]
    exact (List.perm_cons_erase hu).symm
  · rw [Function.update_of_ne hba]

theorem reordered_first {l : L} {u : T} (hu : u ∈ s.queue l) : Reordered s (s.first l u) :=
  ⟨rfl, perm_update s.queue hu, fun _ => .refl _, rfl, rfl, rfl⟩

theorem reordered_firstWaiter {c : C} {u : T} (hu : u ∈ s.waiters c) :
    Reordered s (s.firstWaiter c u) :=
  ⟨rfl, fun _ => .refl _, perm_update s.waiters hu, rfl, rfl, rfl⟩

end Reordered

/-- A request that needs a lock is done with it, or refused. -/
theorem micro_of_needs {P : Program L C X Loc} {s s₁ s' : State T L C X Loc} {t : T} {l : L}
    (r : Nat) (hrun : s.mode t = .running) (hneeds : (P.request (s.loc t)).Needs l)
    (hdone : s.owner l = some t → Micro P s (some t) s₁)
    (h : (if s.owner l = some t then some s₁ else some (s.goOn P t 0 r)) = some s') :
    Micro P s (some t) s' := by
  split at h
  · rename_i howner
    cases h
    exact hdone howner
  · rename_i howner
    cases h
    exact .refused r hrun hneeds howner

/-- A request is a piece of work, or a thread joins the queue of a lock. -/
theorem ask_cases {P : Program L C X Loc} {s s' : State T L C X Loc} {t : T} {r : Nat}
    (hrun : s.mode t = .running) (h : P.ask s t r (P.request (s.loc t)) = some s') :
    (∃ l, P.request (s.loc t) = .Acquire l ∧ s' = s.enqueue l t) ∨ Micro P s (some t) s' := by
  cases hreq : P.request (s.loc t) with
  | Acquire l =>
    rw [hreq] at h
    cases h
    exact .inl ⟨l, rfl, rfl⟩
  | Release l =>
    rw [hreq] at h
    exact .inr (micro_of_needs r hrun (by rw [hreq]; rfl) (.release r hrun hreq) h)
  | Wait c l =>
    rw [hreq] at h
    exact .inr (micro_of_needs r hrun (by rw [hreq]; rfl) (.sleep hrun hreq) h)
  | Signal c l =>
    rw [hreq] at h
    exact .inr (micro_of_needs r hrun (by rw [hreq]; rfl) (.wake r hrun (.inl ⟨hreq, rfl⟩)) h)
  | Broadcast c l =>
    rw [hreq] at h
    exact .inr (micro_of_needs r hrun (by rw [hreq]; rfl) (.wake r hrun (.inr ⟨hreq, rfl⟩)) h)
  | Get x i =>
    rw [hreq] at h
    cases h
    exact .inr (.get r hrun hreq)
  | Set x i v =>
    rw [hreq] at h
    cases h
    exact .inr (.set r hrun hreq)
  | Exit =>
    rw [hreq] at h
    cases h

/-- To give a lock to one of its queue is to put it first and hand the lock over. -/
theorem micro_of_grant {P : Program L C X Loc} {s : State T L C X Loc} {l : L} {u : T}
    (howner : s.owner l = none) :
    Micro P (s.first l u) none (s.grantTo P l u ((s.queue l).erase u)) := by
  have hqueue : (s.first l u).queue l = u :: (s.queue l).erase u := Function.update_self _ _ _
  have heq : s.grantTo P l u ((s.queue l).erase u) =
      (s.first l u).grantTo P l u ((s.queue l).erase u) := by
    unfold State.grantTo State.first State.goOn
    simp only [Function.update_idem]
  rw [heq]
  exact .grant howner hqueue

/-- **What an event is**: a thread joins the queue of a lock, or those that wait are put in
another order, and an orderly server does a piece of its work. -/
theorem serve_cases {P : Program L C X Loc} {s s' : State T L C X Loc} {e : Act T L C}
    (h : P.Serve s e s') :
    (∃ t l r, e = .ask t r ∧ s.mode t = .running ∧ P.request (s.loc t) = .Acquire l ∧
        s' = s.enqueue l t) ∨
      ∃ s₁, Reordered s s₁ ∧ (s' = s₁ ∨ Micro P s₁ e.asker s') := by
  unfold Program.Serve Program.serve at h
  cases e with
  | ask t r =>
    dsimp only at h
    split at h
    · rename_i hrun
      rcases ask_cases hrun h with ⟨l, hreq, rfl⟩ | hm
      · exact .inl ⟨t, l, r, rfl, hrun, hreq, rfl⟩
      · exact .inr ⟨s, .refl s, .inr hm⟩
    · cases h
  | grant l u =>
    dsimp only at h
    split at h
    · rename_i hgrant
      cases h
      exact .inr ⟨s.first l u, reordered_first hgrant.2, .inr (micro_of_grant hgrant.1)⟩
    · cases h
  | prefer c u =>
    dsimp only at h
    split at h
    · rename_i hu
      cases h
      exact .inr ⟨_, reordered_firstWaiter hu, .inl rfl⟩
    · cases h

/-! ### The rules -/

section Rules

variable {P : Program L C X Loc} {held : Loc → L → Prop} {lockOf : C → L}
  {s s' : State T L C X Loc} {e : Act T L C}

theorem Locked.reordered (h : Locked P held lockOf s) (hr : Reordered s s') :
    Locked P held lockOf s' where
  owner m t := by
    rw [hr.owner, h.owner m t]
    unfold Holds
    rw [hr.mode, hr.loc]
  queue m t := by rw [(hr.queue m).mem_iff, hr.mode, h.queue m t]
  waiters c t := by rw [(hr.waiters c).mem_iff, hr.mode, h.waiters c t]
  queueNodup m := (hr.queue m).nodup_iff.mpr (h.queueNodup m)
  waitersNodup c := (hr.waiters c).nodup_iff.mpr (h.waitersNodup c)
  queued m t ht := by
    rw [hr.mode] at ht
    rw [hr.loc]
    exact h.queued m t ht
  asleep c t ht := by
    rw [hr.mode] at ht
    rw [hr.loc]
    exact h.asleep c t ht

/-- **The server agrees with the locations after each event.** -/
theorem locked_serve (hP : Discipline P held lockOf) (h : Locked P held lockOf s)
    (hs : P.Serve s e s') : Locked P held lockOf s' := by
  rcases serve_cases hs with ⟨t, l, r, rfl, hrun, hreq, rfl⟩ | ⟨s₁, hr, rfl | hm⟩
  · exact h.enqueue hrun hreq
  · exact h.reordered hr
  · exact locked_micro hP (h.reordered hr) hm

/-- **One thread moves at most**, as with an orderly server. -/
theorem serve_moves (hP : Discipline P held lockOf) (h : Locked P held lockOf s)
    (hs : P.Serve s e s') :
    (s'.loc = s.loc ∧ s'.val = s.val) ∨
      ∃ t r, s'.loc = Function.update s.loc t
          (P.next (s.loc t) (P.effect (P.request (s.loc t)) s.val).1 r) ∧
        s'.val = (P.effect (P.request (s.loc t)) s.val).2 ∧
        ((e.asker = some t ∧ s.mode t = .running ∧ ∀ c l, P.request (s.loc t) ≠ .Wait c l) ∨
          ∃ l, s.mode t = .queued l ∧
            (P.request (s.loc t) = .Acquire l ∨ ∃ c, P.request (s.loc t) = .Wait c l)) := by
  rcases serve_cases hs with ⟨t, l, r, rfl, hrun, hreq, rfl⟩ | ⟨s₁, hr, rfl | hm⟩
  · exact .inl ⟨rfl, rfl⟩
  · exact .inl ⟨hr.loc, hr.val⟩
  · have hmoves := micro_moves hP (h.reordered hr) hm
    rw [hr.loc, hr.val, hr.mode] at hmoves
    exact hmoves

theorem Known.reordered {claim : Loc → (X → Int → Int) → Prop} (h : Known P claim s)
    (hr : Reordered s s') : Known P claim s' := by
  intro t ht
  rw [hr.mode, hr.loc] at ht
  rw [hr.loc, hr.val]
  exact h t ht

/-- **What the locations say stays so.** -/
theorem known_serve {guard : X → Option L} {claim : Loc → (X → Int → Int) → Prop}
    (hC : Claims P held guard claim) (hlocked : Locked P held lockOf s) (h : Known P claim s)
    (hs : P.Serve s e s') : Known P claim s' := by
  rcases serve_cases hs with ⟨t, l, r, rfl, hrun, hreq, rfl⟩ | ⟨s₁, hr, rfl | hm⟩
  · intro u hu
    by_cases hut : u = t
    · subst hut
      exact h u (.inl hrun)
    · have hmode : (s.enqueue l t).mode u = s.mode u := Function.update_of_ne hut _ _
      rw [hmode] at hu
      exact h u hu
  · exact h.reordered hr
  · exact known_micro hC (hlocked.reordered hr) (h.reordered hr) hm

/-- **The variables go on counting.** -/
theorem tallied_serve [Fintype T] {claim : Loc → (X → Int → Int) → Prop}
    {counted : X → Int → Prop} {weight : X → Int → Loc → Int} (hT : Tallies P claim counted weight)
    (hlocked : Locked P held lockOf s) (hknown : Known P claim s) (h : Tallied counted weight s)
    (hs : P.Serve s e s') : Tallied counted weight s' := by
  have hsame : ∀ s₁ : State T L C X Loc, s₁.loc = s.loc → s₁.val = s.val →
      Tallied counted weight s₁ := by
    intro s₁ hloc hval x i hx
    rw [hloc, hval]
    exact h x i hx
  rcases serve_cases hs with ⟨t, l, r, rfl, hrun, hreq, rfl⟩ | ⟨s₁, hr, rfl | hm⟩
  · exact hsame _ rfl rfl
  · exact hsame _ hr.loc hr.val
  · exact tallied_micro hT (hlocked.reordered hr) (hknown.reordered hr) (hsame _ hr.loc hr.val) hm

end Rules

/-! ### A server that grants its locks in order is one of these -/

section Ordered

variable {P : Program L C X Loc} {s s' : State T L C X Loc}

/-- Nobody else waits for the lock: the thread asks, and is given it. -/
theorem serve_acquire {t : T} {l : L} (hrun : s.mode t = .running)
    (hreq : P.request (s.loc t) = .Acquire l) (howner : s.owner l = none)
    (hqueue : s.queue l = []) :
    P.Serve s (.ask t 0) (s.enqueue l t) ∧
      P.Serve (s.enqueue l t) (.grant l t) ((s.setOwner l (some t)).goOn P t 0 0) := by
  refine ⟨serve_ask hrun (by rw [hreq]; rfl), ?_⟩
  · have hq : (s.enqueue l t).queue l = [t] := by
      show Function.update s.queue l (s.queue l ++ [t]) l = [t]
      rw [Function.update_self, hqueue, List.nil_append]
    have hgrant : (s.enqueue l t).owner l = none ∧ t ∈ (s.enqueue l t).queue l :=
      ⟨howner, by rw [hq]; exact List.mem_singleton_self t⟩
    have hstate : (s.enqueue l t).grantTo P l t (((s.enqueue l t).queue l).erase t) =
        (s.setOwner l (some t)).goOn P t 0 0 := by
      rw [hq, List.erase_cons_head]
      unfold State.grantTo State.enqueue State.setOwner State.goOn
      simp only [Function.update_idem]
      rw [← hqueue, ← hrun, Function.update_eq_self, Function.update_eq_self]
    unfold Program.Serve Program.serve
    simp only [if_pos hgrant, hstate]

/-- Each piece of an orderly server's work is one event here, or two. -/
theorem serve_of_micro {o : Option T} (h : Micro P s o s') :
    (∃ e, e.asker = o ∧ P.Serve s e s') ∨
      ∃ t l, o = some t ∧ P.Serve s (.ask t 0) (s.enqueue l t) ∧
        P.Serve (s.enqueue l t) (.grant l t) s' := by
  have hask : ∀ {t : T} {r : Nat} {q : Request L C X} {s'' : State T L C X Loc},
      s.mode t = .running → P.request (s.loc t) = q → P.ask s t r q = some s'' →
      P.Serve s (.ask t r) s'' := by
    rintro t r q s'' hrun rfl h
    exact serve_ask hrun h
  cases h with
  | acquire hrun hreq howner hqueue =>
    exact .inr ⟨_, _, rfl, serve_acquire hrun hreq howner hqueue⟩
  | @enqueue t u l hrun hreq howner => exact .inl ⟨.ask t 0, rfl, hask hrun hreq rfl⟩
  | @release t l r hrun hreq howner =>
    exact .inl ⟨.ask t r, rfl, hask hrun hreq (if_pos howner)⟩
  | @sleep t c l hrun hreq howner =>
    exact .inl ⟨.ask t 0, rfl, hask hrun hreq (if_pos howner)⟩
  | @wake t c l n r hrun hreq howner =>
    refine .inl ⟨.ask t r, rfl, ?_⟩
    rcases hreq with ⟨hreq, rfl⟩ | ⟨hreq, rfl⟩
    · exact hask hrun hreq (if_pos howner)
    · exact hask hrun hreq (if_pos howner)
  | @refused t l r hrun hreq howner =>
    refine .inl ⟨.ask t r, rfl, hask hrun rfl ?_⟩
    cases hq : P.request (s.loc t) with
    | Release m | Wait c m | Signal c m | Broadcast c m =>
      rw [hq] at hreq
      cases (show m = l from hreq)
      exact if_neg howner
    | _ =>
      rw [hq] at hreq
      exact hreq.elim
  | @get t x i r hrun hreq => exact .inl ⟨.ask t r, rfl, hask hrun hreq rfl⟩
  | @set t x i v r hrun hreq => exact .inl ⟨.ask t r, rfl, hask hrun hreq rfl⟩
  | @grant u l q howner hqueue =>
    refine .inl ⟨.grant l u, rfl, ?_⟩
    have hgrant : s.owner l = none ∧ u ∈ s.queue l :=
      ⟨howner, by rw [hqueue]; exact List.mem_cons_self⟩
    have hrest : (s.queue l).erase u = q := by rw [hqueue, List.erase_cons_head]
    unfold Program.Serve Program.serve
    simp only [if_pos hgrant, hrest]

/-- **Its runs are runs here.** -/
theorem reachable_serve {init : State T L C X Loc} (h : Reachable P.Step init s)
    (hsettled : init.Settled) : Reachable P.Serve init s := by
  refine reachable_of_micro (I := fun s => Reachable P.Serve init s) ?_ h ⟨[], .nil _⟩ hsettled
  intro s o s' hs hm
  rcases serve_of_micro hm with ⟨e, -, he⟩ | ⟨t, l, -, hask, hgrant⟩
  · exact hs.tail he
  · exact (hs.tail hask).tail hgrant

end Ordered

/-! ### Runs that are computed

A run of many requests is computed well only if what a request names is computed before it goes
into the state: the server's functions are asked for it at every later request. -/

/-- A type whose values are computed before they are used. -/
class Strict (α : Type) where
  force {β : Type} : α → (α → β) → β
  force_eq {β : Type} (a : α) (use : α → β) : force a use = use a

instance : Strict Int where
  force
    | .ofNat 0, use => use (.ofNat 0)
    | .ofNat (n + 1), use => use (.ofNat (n + 1))
    | .negSucc 0, use => use (.negSucc 0)
    | .negSucc (n + 1), use => use (.negSucc (n + 1))
  force_eq a use := by
    cases a with
    | ofNat n | negSucc n => cases n <;> rfl

instance [Strict L] [Strict C] [Strict X] : Strict (Request L C X) where
  force
    | .Acquire l, use => Strict.force l fun l => use (.Acquire l)
    | .Release l, use => Strict.force l fun l => use (.Release l)
    | .Wait c l, use => Strict.force c fun c => Strict.force l fun l => use (.Wait c l)
    | .Signal c l, use => Strict.force c fun c => Strict.force l fun l => use (.Signal c l)
    | .Broadcast c l, use => Strict.force c fun c => Strict.force l fun l => use (.Broadcast c l)
    | .Get x i, use => Strict.force x fun x => Strict.force i fun i => use (.Get x i)
    | .Set x i v, use =>
      Strict.force x fun x => Strict.force i fun i => Strict.force v fun v => use (.Set x i v)
    | .Exit, use => use .Exit
  force_eq q use := by cases q <;> simp only [Strict.force_eq]

section Drive

variable [Strict L] [Strict C] [Strict X] (P : Program L C X Loc)

/-- A thread that waits for a lock is given it. -/
def Program.given (s : State T L C X Loc) (t : T) : Option (State T L C X Loc) :=
  match s.mode t with
  | .queued l => Strict.force l fun l => P.serve s (.grant l t)
  | _ => none

/-- A thread makes its next request, and is given a free lock at once; one that waits for a lock
is given it. -/
def Program.drive (s : State T L C X Loc) (t : T) : Option (State T L C X Loc) :=
  match s.mode t with
  | .running =>
    (Strict.force (P.request (s.loc t)) (P.ask s t 0)).map fun s' => (P.given s' t).getD s'
  | _ => P.given s t

variable {P} {s s' : State T L C X Loc}

theorem serve_of_given {t : T} (h : P.given s t = some s') : ∃ e, P.Serve s e s' := by
  unfold Program.given at h
  split at h
  · rename_i l hmode
    rw [Strict.force_eq] at h
    exact ⟨_, h⟩
  · cases h

theorem reachable_of_drive_step {t : T} (h : P.drive s t = some s') : Reachable P.Serve s s' := by
  unfold Program.drive at h
  split at h
  · rename_i hrun
    rw [Strict.force_eq] at h
    obtain ⟨s₁, hask, hlast⟩ := Option.map_eq_some_iff.mp h
    have hreach : Reachable P.Serve s s₁ := ⟨_, .cons (serve_ask hrun hask) (.nil _)⟩
    cases hgiven : P.given s₁ t with
    | none =>
      rw [hgiven] at hlast
      cases hlast
      exact hreach
    | some s₂ =>
      rw [hgiven] at hlast
      cases hlast
      obtain ⟨e, he⟩ := serve_of_given hgiven
      exact hreach.tail he
  · obtain ⟨e, he⟩ := serve_of_given h
    exact ⟨[e], .cons he (.nil _)⟩

/-- **A run that is computed is a run.** -/
theorem reachable_of_drive {l : List T} (h : execute P.drive s l = some s') :
    Reachable P.Serve s s' := by
  have hpath : Path (fun s t s' => P.drive s t = some s') s l s' :=
    path_of_execute (fun _ _ _ => id) h
  refine hpath.invariant (I := fun s₁ => Reachable P.Serve s s₁) ?_ ⟨[], .nil _⟩
  rintro s₁ t s₂ ⟨l₁, hl₁⟩ hstep
  obtain ⟨l₂, hl₂⟩ := reachable_of_drive_step hstep
  exact ⟨l₁ ++ l₂, hl₁.append hl₂⟩

end Drive

end Lib.Monitor

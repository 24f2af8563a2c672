import Nachos.Lib.Monitor

/-!
# What a piece of work does to each thread

`Micro` has nine cases, by the request. Seen from the threads there are three (`Moved`): a
thread stops, to wait for a lock or to be woken; a running thread goes on with an answer; or a
waiting thread is given its lock, and goes on.

Numbers that threads draw from one counter under a lock are all different (`Drawn`).
-/

namespace Lib.Monitor

set_option linter.unusedSectionVars false

variable {T L C X Loc : Type} [DecidableEq T] [DecidableEq L] [DecidableEq C] [DecidableEq X]

/-! ### The three moves -/

/-- A running thread waits now, for a lock that is taken or to be woken. -/
structure Stops (P : Program L C X Loc) (s s' : State T L C X Loc) (t : T) (m : Mode L C) :
    Prop where
  running : s.mode t = .running
  loc : s'.loc = s.loc
  val : s'.val = s.val
  mode : s'.mode = Function.update s.mode t m
  why : (∃ l u, P.request (s.loc t) = .Acquire l ∧ s.owner l = some u ∧ m = .queued l ∧
      s'.owner = s.owner) ∨
    ∃ c l, P.request (s.loc t) = .Wait c l ∧ s.owner l = some t ∧ m = .asleep c ∧
      s'.owner = Function.update s.owner l none

/-- A running thread is answered, and goes on. -/
structure Goes (P : Program L C X Loc) (s s' : State T L C X Loc) (t : T) (r : Nat) : Prop where
  running : s.mode t = .running
  loc : s'.loc = Function.update s.loc t
    (P.next (s.loc t) (P.effect (P.request (s.loc t)) s.val).1 r)
  val : s'.val = (P.effect (P.request (s.loc t)) s.val).2
  lives : P.request (s.loc t) ≠ .Exit
  awake : ∀ c l, P.request (s.loc t) ≠ .Wait c l
  acquires : ∀ l, P.request (s.loc t) = .Acquire l →
    s.owner l = none ∧ s.queue l = [] ∧ s'.owner = Function.update s.owner l (some t)
  releases : ∀ l, P.request (s.loc t) = .Release l → s.owner l = some t →
    s'.owner = Function.update s.owner l none
  owner : (∀ l, P.request (s.loc t) ≠ .Acquire l) →
    (∀ l, P.request (s.loc t) = .Release l → s.owner l ≠ some t) → s'.owner = s.owner
  signals : ∀ c l, P.request (s.loc t) = .Signal c l → s.owner l = some t →
    s'.mode = fun u => if u ∈ (s.waiters c).take 1 then .queued l else s.mode u
  mode : ∀ u, (∀ c, s.mode u = .asleep c → ∀ l, P.request (s.loc t) ≠ .Signal c l ∧
    P.request (s.loc t) ≠ .Broadcast c l) → s'.mode u = s.mode u

/-- A waiting thread is given its lock, which answers its request. -/
structure Granted (P : Program L C X Loc) (s s' : State T L C X Loc) (t : T) (l : L) : Prop where
  queued : s.mode t = .queued l
  first : ∃ q, s.queue l = t :: q
  free : s.owner l = none
  loc : s'.loc = Function.update s.loc t (P.next (s.loc t) 0 0)
  val : s'.val = s.val
  mode : s'.mode = Function.update s.mode t .running
  owner : s'.owner = Function.update s.owner l (some t)

/-- What happens to one thread, by whose request. -/
inductive Moved (P : Program L C X Loc) (s s' : State T L C X Loc) : Option T → Prop where
  | stops {t : T} {m : Mode L C} (h : Stops P s s' t m) : Moved P s s' (some t)
  | goes {t : T} {r : Nat} (h : Goes P s s' t r) : Moved P s s' (some t)
  | granted {t : T} {l : L} (h : Granted P s s' t l) : Moved P s s' none

section Moves

variable {P : Program L C X Loc} {held : Loc → L → Prop} {lockOf : C → L}
  {s s' : State T L C X Loc} {o : Option T}

/-- A thread that asks for something else is not waiting. -/
theorem Locked.running (hlocked : Locked P held lockOf s) {t : T}
    (hacquire : ∀ l, P.request (s.loc t) ≠ .Acquire l)
    (hwait : ∀ c l, P.request (s.loc t) ≠ .Wait c l) : s.mode t = .running := by
  cases hmode : s.mode t with
  | running => rfl
  | queued l =>
    rcases hlocked.queued l t hmode with hreq | ⟨c, hreq⟩
    · exact absurd hreq (hacquire l)
    · exact absurd hreq (hwait c l)
  | asleep c => exact absurd (hlocked.asleep c t hmode) (hwait c _)

/-- A lock changes its owner where it is acquired or released. -/
theorem Goes.owner_kept {t : T} {r : Nat} (h : Goes P s s' t r) {m : L}
    (hacquire : P.request (s.loc t) ≠ .Acquire m) (hrelease : P.request (s.loc t) ≠ .Release m) :
    s'.owner m = s.owner m := by
  by_cases hacq : ∃ l, P.request (s.loc t) = .Acquire l
  · obtain ⟨l, hl⟩ := hacq
    rw [(h.acquires l hl).2.2, Function.update_of_ne]
    rintro rfl
    exact hacquire hl
  · by_cases hrel : ∃ l, P.request (s.loc t) = .Release l ∧ s.owner l = some t
    · obtain ⟨l, hl, howner⟩ := hrel
      rw [h.releases l hl howner, Function.update_of_ne]
      rintro rfl
      exact hrelease hl
    · rw [h.owner (fun l hl => hacq ⟨l, hl⟩) fun l hl howner => hrel ⟨l, hl, howner⟩]

/-- A free lock that is not acquired is free. -/
theorem Goes.owner_free {t : T} {r : Nat} (h : Goes P s s' t r) {m : L}
    (hacquire : P.request (s.loc t) ≠ .Acquire m) (hfree : s.owner m = none) :
    s'.owner m = none := by
  by_cases hrel : P.request (s.loc t) = .Release m
  · rw [h.owner (fun l hl => by cases hrel.symm.trans hl) fun l hl howner => ?_]
    · exact hfree
    · cases hrel.symm.trans hl
      cases howner.symm.trans hfree
  · rw [h.owner_kept hacquire hrel]
    exact hfree

/-- **Each piece of work is one of the three.** -/
theorem moved_micro (hP : Discipline P held lockOf) (hlocked : Locked P held lockOf s)
    (hm : Micro P s o s') : Moved P s s' o := by
  have hwait : ∀ t c l, s.mode t = .running → P.request (s.loc t) = .Wait c l →
      s.owner l = some t := by
    intro t c l hrun hreq
    have hin := hP.inOrder (s.loc t)
    rw [hreq] at hin
    exact hlocked.owner_of_held hrun hin.2
  cases hm with
  | @acquire t l hrun hreq howner hqueue =>
    refine .goes (r := 0) ⟨hrun, by rw [hreq]; rfl, by rw [hreq]; rfl, by simp [hreq], by simp [hreq], ?_, ?_, ?_,
      by simp [hreq], fun u _ => rfl⟩
    · intro l' hl
      cases hreq.symm.trans hl
      exact ⟨howner, hqueue, rfl⟩
    · intro l' hl
      cases hreq.symm.trans hl
    · exact fun hno => absurd hreq (hno l)
  | @enqueue t u l hrun hreq howner =>
    exact .stops ⟨hrun, rfl, rfl, rfl, .inl ⟨l, u, hreq, howner, rfl, rfl⟩⟩
  | @release t l r hrun hreq howner =>
    refine .goes (r := r) ⟨hrun, by rw [hreq]; rfl, by rw [hreq]; rfl, by simp [hreq], by simp [hreq],
      by simp [hreq], ?_, ?_, by simp [hreq], fun u _ => rfl⟩
    · intro l' hl _
      cases hreq.symm.trans hl
      rfl
    · exact fun _ hno => absurd howner (hno l hreq)
  | @sleep t c l hrun hreq howner =>
    exact .stops ⟨hrun, rfl, rfl, rfl, .inr ⟨c, l, hreq, howner, rfl, rfl⟩⟩
  | @wake t c l n r hrun hreq howner =>
    have hmode : ((s.wake c l n).goOn P t 0 r).mode = fun u =>
        if u ∈ (s.waiters c).take n then .queued l else s.mode u := rfl
    have heffect : P.effect (P.request (s.loc t)) s.val = (0, s.val) := by
      rcases hreq with ⟨hreq, -⟩ | ⟨hreq, -⟩
      · rw [hreq]
        rfl
      · rw [hreq]
        rfl
    refine .goes (r := r) ⟨hrun, by rw [heffect]; rfl, by rw [heffect]; rfl, ?_, ?_, ?_, ?_,
      fun _ _ => rfl, ?_, fun u hu => ?_⟩
    · rcases hreq with ⟨hreq, -⟩ | ⟨hreq, -⟩ <;> simp [hreq]
    · rcases hreq with ⟨hreq, -⟩ | ⟨hreq, -⟩ <;> simp [hreq]
    · rcases hreq with ⟨hreq, -⟩ | ⟨hreq, -⟩ <;> simp [hreq]
    · rcases hreq with ⟨hreq, -⟩ | ⟨hreq, -⟩ <;> simp [hreq]
    · intro c' l' hc _
      rcases hreq with ⟨hreq, rfl⟩ | ⟨hreq, -⟩
      · cases hreq.symm.trans hc
        exact hmode
      · cases hreq.symm.trans hc
    · rw [hmode]
      refine if_neg fun hmem => ?_
      have hasleep := (hlocked.waiters c u).mp (List.mem_of_mem_take hmem)
      rcases hreq with ⟨hreq, -⟩ | ⟨hreq, -⟩
      · exact (hu c hasleep l).1 hreq
      · exact (hu c hasleep l).2 hreq
  | @refused t l r hrun hreq howner =>
    have hnot : ∀ c l', P.request (s.loc t) ≠ .Wait c l' := by
      intro c l' hq
      rw [hq] at hreq
      cases (show l' = l from hreq)
      exact howner (hwait t c _ hrun hq)
    have heffect : P.effect (P.request (s.loc t)) s.val = (0, s.val) := by
      cases hq : P.request (s.loc t) with
      | Get x i | Set x i v =>
        rw [hq] at hreq
        exact hreq.elim
      | _ => rfl
    have hneeds : ∀ {q : Request L C X} {m : L}, P.request (s.loc t) = q → q.Needs m →
        s.owner m ≠ some t := by
      intro q m hq hq'
      rw [hq] at hreq
      cases q <;> cases hreq <;> cases hq' <;> exact howner
    refine .goes (r := r) ⟨hrun, by rw [heffect]; rfl, by rw [heffect]; rfl, ?_, hnot, ?_, ?_,
      fun _ _ => rfl, ?_, fun u _ => rfl⟩
    · intro hexit
      rw [hexit] at hreq
      exact hreq.elim
    · intro l' hl
      rw [hl] at hreq
      exact hreq.elim
    · exact fun l' hl howner' => absurd howner' (hneeds hl rfl)
    · exact fun c l' hl howner' => absurd howner' (hneeds hl rfl)
  | @get t x i r hrun hreq =>
    exact .goes (r := r) ⟨hrun, by rw [hreq]; rfl, by rw [hreq]; rfl, by simp [hreq], by simp [hreq],
      by simp [hreq], by simp [hreq], fun _ _ => rfl, by simp [hreq], fun u _ => rfl⟩
  | @set t x i v r hrun hreq =>
    exact .goes (r := r) ⟨hrun, by rw [hreq]; rfl, by rw [hreq]; rfl, by simp [hreq], by simp [hreq],
      by simp [hreq], by simp [hreq], fun _ _ => rfl, by simp [hreq], fun u _ => rfl⟩
  | @grant t l q howner hqueue =>
    exact .granted ⟨(hlocked.queue l t).mp (by rw [hqueue]; exact List.mem_cons_self),
      ⟨q, hqueue⟩, howner, rfl, rfl, rfl, rfl⟩

/-- Each piece of work answers one thread at most, which goes on with it. -/
theorem Moved.advances (hlocked : Locked P held lockOf s) (h : Moved P s s' o) :
    (s'.loc = s.loc ∧ s'.val = s.val) ∨
      ∃ t r, s'.loc = Function.update s.loc t
          (P.next (s.loc t) (P.effect (P.request (s.loc t)) s.val).1 r) ∧
        s'.val = (P.effect (P.request (s.loc t)) s.val).2 ∧ P.request (s.loc t) ≠ .Exit ∧
        (s.mode t = .running → ∀ c l, P.request (s.loc t) ≠ .Wait c l) := by
  cases h with
  | stops h => exact .inl ⟨h.loc, h.val⟩
  | @goes t r h => exact .inr ⟨t, r, h.loc, h.val, h.lives, fun _ => h.awake⟩
  | @granted t l h =>
    have heffect : P.effect (P.request (s.loc t)) s.val = (0, s.val) ∧
        P.request (s.loc t) ≠ .Exit := by
      rcases hlocked.queued l t h.queued with hreq | ⟨c, hreq⟩
      · rw [hreq]
        exact ⟨rfl, by simp⟩
      · rw [hreq]
        exact ⟨rfl, by simp⟩
    refine .inr ⟨t, 0, ?_, ?_, heffect.2, fun hrun => ?_⟩
    · rw [heffect.1]
      exact h.loc
    · rw [heffect.1]
      exact h.val
    · cases hrun.symm.trans h.queued

end Moves

/-! ### Numbers that are drawn -/

/-- **Threads that draw numbers** from the first place of `x`: one that writes it has read its
number there, and leaves the next one. -/
structure Draws (P : Program L C X Loc) (claim : Loc → (X → Int → Int) → Prop) (x : X)
    (number : Loc → Option Int) : Prop where
  range : 0 < P.size x
  write : ∀ p i v val r, P.request p = .Set x i v → claim p val →
    i = 0 ∧ v = val x 0 + 1 ∧ number p = none ∧ number (P.next p 0 r) = some (val x 0)
  other : ∀ p a r, (∀ i v, P.request p ≠ .Set x i v) → number (P.next p a r) = number p

/-- The numbers drawn so far are different, and smaller than the next one. -/
structure Drawn (x : X) (number : Loc → Option Int) (s : State T L C X Loc) : Prop where
  next : 0 ≤ s.val x 0
  lt : ∀ t n, number (s.loc t) = some n → 0 ≤ n ∧ n < s.val x 0
  unique : ∀ t u n, number (s.loc t) = some n → number (s.loc u) = some n → t = u

section Numbers

variable {P : Program L C X Loc} {held : Loc → L → Prop} {lockOf : C → L}
  {claim : Loc → (X → Int → Int) → Prop} {x : X} {number : Loc → Option Int}
  {s s' : State T L C X Loc} {o : Option T}

/-- A number that was drawn stays. -/
theorem Draws.kept (hD : Draws P claim x number) (hP : Discipline P held lockOf)
    (hlocked : Locked P held lockOf s) (hknown : Known P claim s) (hm : Micro P s o s') {t : T}
    {n : Int} (ht : number (s.loc t) = some n) : number (s'.loc t) = some n := by
  rcases micro_moves hP hlocked hm with ⟨hloc, -⟩ | ⟨v, r, hloc, -, hwhy⟩
  · rw [hloc]
    exact ht
  · by_cases htv : t = v
    · subst htv
      rw [hloc, Function.update_self]
      by_cases hset : ∃ i w, P.request (s.loc t) = .Set x i w
      · obtain ⟨i, w, hreq⟩ := hset
        have hnot : ∀ c m, P.request (s.loc t) ≠ .Wait c m := by simp [hreq]
        have hnone := (hD.write _ i w s.val r hreq (hknown t (.inr hnot))).2.2.1
        cases hnone.symm.trans ht
      · rw [hD.other _ _ r fun i w hreq => hset ⟨i, w, hreq⟩]
        exact ht
    · rw [hloc, Function.update_of_ne htv]
      exact ht

/-- **They stay different.** -/
theorem drawn_micro (hD : Draws P claim x number) (hP : Discipline P held lockOf)
    (hlocked : Locked P held lockOf s) (hknown : Known P claim s) (h : Drawn x number s)
    (hm : Micro P s o s') : Drawn x number s' := by
  rcases micro_moves hP hlocked hm with ⟨hloc, hval⟩ | ⟨v, r, hloc, hval, -⟩
  · exact ⟨by rw [hval]; exact h.next, by rw [hloc, hval]; exact h.lt, by rw [hloc]; exact h.unique⟩
  · have hother : ∀ t, t ≠ v → s'.loc t = s.loc t := fun t ht => by
      rw [hloc, Function.update_of_ne ht]
    have hself : s'.loc v = P.next (s.loc v) (P.effect (P.request (s.loc v)) s.val).1 r := by
      rw [hloc, Function.update_self]
    by_cases hset : ∃ i w, P.request (s.loc v) = .Set x i w
    · obtain ⟨i, w, hreq⟩ := hset
      have hnot : ∀ c m, P.request (s.loc v) ≠ .Wait c m := by simp [hreq]
      obtain ⟨rfl, rfl, -, hnumber⟩ := hD.write _ i w s.val r hreq (hknown v (.inr hnot))
      have hnext : s'.val x 0 = s.val x 0 + 1 := by
        rw [hval, hreq]
        show P.set s.val x 0 _ x 0 = _
        have hrange : (0 : Int) ≤ 0 ∧ (0 : Int) < P.size x :=
          ⟨le_rfl, by exact_mod_cast hD.range⟩
        rw [Program.set, if_pos hrange, Function.update_self, Function.update_self]
      have hnew : number (s'.loc v) = some (s.val x 0) := by
        rw [hself, hreq]
        exact hnumber
      have hpos := h.next
      -- an older number is smaller than the new one
      have hold : ∀ t n, t ≠ v → number (s'.loc t) = some n → 0 ≤ n ∧ n < s.val x 0 :=
        fun t n ht hn => h.lt t n (by rw [← hother t ht]; exact hn)
      refine ⟨by omega, fun t n hn => ?_, fun t u n ht hu => ?_⟩
      · by_cases htv : t = v
        · subst htv
          cases hnew.symm.trans hn
          omega
        · have := hold t n htv hn
          omega
      · by_cases htv : t = v
        · subst htv
          cases hnew.symm.trans ht
          by_contra huv
          have := hold u _ (fun heq => huv heq.symm) hu
          omega
        · by_cases huv : u = v
          · subst huv
            cases hnew.symm.trans hu
            have := hold t _ htv ht
            omega
          · rw [hother t htv] at ht
            rw [hother u huv] at hu
            exact h.unique t u n ht hu
    · have hnumber : ∀ t, number (s'.loc t) = number (s.loc t) := fun t => by
        by_cases htv : t = v
        · subst htv
          rw [hself, hD.other _ _ r fun i w hreq => hset ⟨i, w, hreq⟩]
        · rw [hother t htv]
      have hnext : s'.val x 0 = s.val x 0 := by
        rw [hval]
        cases hreq : P.request (s.loc v) with
        | Set y i w =>
          show P.set s.val y i w x 0 = s.val x 0
          have hxy : x ≠ y := by
            rintro rfl
            exact hset ⟨i, w, hreq⟩
          unfold Program.set
          split
          · rw [Function.update_of_ne hxy]
          · rfl
        | _ => rfl
      refine ⟨by rw [hnext]; exact h.next, fun t n hn => ?_, fun t u n ht hu => ?_⟩
      · rw [hnumber] at hn
        rw [hnext]
        exact h.lt t n hn
      · rw [hnumber] at ht hu
        exact h.unique t u n ht hu

end Numbers

end Lib.Monitor

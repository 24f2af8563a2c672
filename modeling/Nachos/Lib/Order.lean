import Nachos.Lib.Monitor

/-!
# Who is woken goes first

A thread that wakes others under a lock, and asks for the lock again later, gets it after all
of them: they joined the lock's queue before it did. So when it holds the lock again, nobody
is left of those it woke (`First`).
-/

namespace Lib.Monitor

set_option linter.unusedSectionVars false

variable {T L C X Loc : Type} [DecidableEq T] [DecidableEq L] [DecidableEq C] [DecidableEq X]

/-- The thread was woken from `c`, and has not got the lock yet. -/
def Woken (P : Program L C X Loc) (s : State T L C X Loc) (c : C) (l : L) (t : T) : Prop :=
  s.mode t = .queued l ∧ P.request (s.loc t) = .Wait c l

/-- Who is woken after a piece of work was woken before, or has been asleep. -/
theorem woken_micro {P : Program L C X Loc} {held : Loc → L → Prop} {lockOf : C → L}
    {s s' : State T L C X Loc} {o : Option T} (hlocked : Locked P held lockOf s)
    (hm : Micro P s o s') {c : C} {l : L} {u : T} (hu : Woken P s' c l u) :
    Woken P s c l u ∨ (s.mode u = .asleep c ∧ s'.loc u = s.loc u ∧ ∃ t, o = some t ∧ t ≠ u ∧
      (P.request (s.loc t) = .Signal c l ∨ P.request (s.loc t) = .Broadcast c l)) := by
  have hgoOn : ∀ {t : T} {a : Int} {r : Nat}, s.mode t = .running → s'.mode = s.mode →
      s'.loc = Function.update s.loc t (P.next (s.loc t) a r) → Woken P s c l u := by
    intro t a r hrun hmode hloc
    have hut : u ≠ t := by
      rintro rfl
      cases (hu.1.symm.trans (congrFun hmode u)).trans hrun
    refine ⟨(congrFun hmode u).symm.trans hu.1, ?_⟩
    rw [← hu.2, hloc, Function.update_of_ne hut]
  cases hm with
  | acquire hrun | release _ hrun | refused _ hrun | get _ hrun | set _ hrun =>
    exact .inl (hgoOn hrun rfl rfl)
  | @enqueue t v m hrun hreq howner =>
    have hut : u ≠ t := by
      rintro rfl
      cases hreq.symm.trans hu.2
    exact .inl ⟨(Function.update_of_ne hut _ _).symm.trans hu.1, hu.2⟩
  | @sleep t d m hrun hreq howner =>
    have hut : u ≠ t := by
      rintro rfl
      cases (Function.update_self u _ s.mode).symm.trans hu.1
    exact .inl ⟨(Function.update_of_ne hut _ _).symm.trans hu.1, hu.2⟩
  | @wake t d m n r hrun hreq howner =>
    have hmode : ((s.wake d m n).goOn P t 0 r).mode u =
        if u ∈ (s.waiters d).take n then .queued m else s.mode u := rfl
    have hwas := hu.1
    rw [hmode] at hwas
    split at hwas
    · rename_i hmem
      cases hwas
      have hasleep := (hlocked.waiters d u).mp (List.mem_of_mem_take hmem)
      have hut : u ≠ t := by
        rintro rfl
        cases hrun.symm.trans hasleep
      have hloc : ((s.wake d l n).goOn P t 0 r).loc u = s.loc u := Function.update_of_ne hut _ _
      have hdc : d = c := by
        have hwait := hu.2
        rw [hloc, hlocked.asleep d u hasleep] at hwait
        cases hwait
        rfl
      subst hdc
      exact .inr ⟨hasleep, hloc, t, rfl, fun heq => hut heq.symm, hreq.imp And.left And.left⟩
    · have hut : u ≠ t := by
        rintro rfl
        cases hrun.symm.trans hwas
      refine .inl ⟨hwas, ?_⟩
      have hloc : ((s.wake d m n).goOn P t 0 r).loc u = s.loc u := Function.update_of_ne hut _ _
      rw [← hu.2, hloc]
  | @grant v m q howner hqueue =>
    have huv : u ≠ v := by
      rintro rfl
      cases (Function.update_self u _ s.mode).symm.trans hu.1
    have hloc : (s.grantTo P m v q).loc u = s.loc u := Function.update_of_ne huv _ _
    refine .inl ⟨(Function.update_of_ne huv _ _).symm.trans hu.1, ?_⟩
    rw [← hu.2, hloc]

/-- Who is asleep after a piece of work was asleep before, or goes to sleep by it. -/
theorem asleep_micro {P : Program L C X Loc} {s s' : State T L C X Loc} {o : Option T}
    (hm : Micro P s o s') {c : C} {u : T} (hu : s'.mode u = .asleep c) :
    (s.mode u = .asleep c ∧ ∀ t l, o = some t → P.request (s.loc t) = .Broadcast c l →
        u ∈ s.waiters c → s.owner l ≠ some t) ∨
      (o = some u ∧ s.mode u = .running ∧ s'.val = s.val ∧ s'.loc = s.loc ∧
        ∃ l, P.request (s.loc u) = .Wait c l ∧ s.owner l = some u) := by
  have hother : ∀ {t : T} {q : Request L C X}, P.request (s.loc t) = q → o = some t →
      (∀ l, q ≠ .Broadcast c l) → ∀ v l, o = some v → P.request (s.loc v) = .Broadcast c l →
        u ∈ s.waiters c → s.owner l ≠ some v := by
    intro t q hreq ho hq v l hv hb
    cases hv.symm.trans ho
    exact absurd (hreq.symm.trans hb) (hq l)
  cases hm with
  | acquire hrun hreq | release _ hrun hreq | get _ hrun hreq | set _ hrun hreq =>
    exact .inl ⟨hu, hother hreq rfl nofun⟩
  | refused _ hrun hreq hnot =>
    refine .inl ⟨hu, fun v l hv hb _ => ?_⟩
    cases hv
    rw [hb] at hreq
    exact hreq ▸ hnot
  | @enqueue t v m hrun hreq howner =>
    have hut : u ≠ t := by
      rintro rfl
      cases (Function.update_self u _ s.mode).symm.trans hu
    exact .inl ⟨(Function.update_of_ne hut _ _).symm.trans hu, hother hreq rfl nofun⟩
  | @sleep t d m hrun hreq howner =>
    by_cases hut : u = t
    · subst hut
      cases (Function.update_self u _ s.mode).symm.trans hu
      exact .inr ⟨rfl, hrun, rfl, rfl, m, hreq, howner⟩
    · exact .inl ⟨(Function.update_of_ne hut _ _).symm.trans hu, hother hreq rfl nofun⟩
  | @wake t d m n r hrun hreq howner =>
    have hmode : ((s.wake d m n).goOn P t 0 r).mode u =
        if u ∈ (s.waiters d).take n then .queued m else s.mode u := rfl
    rw [hmode] at hu
    split at hu
    · cases hu
    · rename_i hnot
      refine .inl ⟨hu, fun v l hv hb hmem _ => ?_⟩
      cases hv
      rcases hreq with ⟨hreq, -⟩ | ⟨hreq, hn⟩
      · cases hreq.symm.trans hb
      · cases hreq.symm.trans hb
        rw [hn, List.take_length] at hnot
        exact hnot hmem
  | @grant v m q howner hqueue =>
    have huv : u ≠ v := by
      rintro rfl
      cases (Function.update_self u _ s.mode).symm.trans hu
    exact .inl ⟨(Function.update_of_ne huv _ _).symm.trans hu, nofun⟩

/-- **One waker.** Only locations of `waker` wake `c`. They do it under the lock `l`, and are
`fresh` from then on until they release it. -/
structure Waker (P : Program L C X Loc) (held : Loc → L → Prop) (c : C) (l : L)
    (waker fresh : Loc → Prop) : Prop where
  only : ∀ p m, P.request p = .Signal c m ∨ P.request p = .Broadcast c m → waker p ∧ m = l
  woke : ∀ p m r, P.request p = .Signal c m ∨ P.request p = .Broadcast c m →
    fresh (P.next p 0 r)
  next : ∀ p a r, waker p ↔ waker (P.next p a r)
  stays : ∀ p a r, waker p → held (P.next p a r) l → held p l → fresh p → fresh (P.next p a r)
  awake : ∀ p d, waker p → P.request p ≠ .Wait d l

/-- The waker has woken them under the lock it still has, or it waits behind them. -/
def First (P : Program L C X Loc) (held : Loc → L → Prop) (c : C) (l : L)
    (waker fresh : Loc → Prop) (s : State T L C X Loc) : Prop :=
  ∀ t m, waker (s.loc m) → Woken P s c l t →
    (s.mode m = .queued l → [t, m].Sublist (s.queue l)) ∧ (held (s.loc m) l → fresh (s.loc m))

section First

variable {P : Program L C X Loc} {held : Loc → L → Prop} {lockOf : C → L} {c : C} {l : L}
  {waker fresh : Loc → Prop} {s s' : State T L C X Loc}

/-- A waker that holds the lock and has woken nobody since it got it finds nobody woken. -/
theorem First.none_woken (h : First P held c l waker fresh s) {m : T} (hm : waker (s.loc m))
    (hheld : held (s.loc m) l) (hold : ¬ fresh (s.loc m)) (t : T) : ¬ Woken P s c l t :=
  fun ht => hold ((h t m hm ht).2 hheld)

theorem First.init {val : X → Int → Int} {loc : T → Loc} :
    First P held c l waker fresh (State.init val loc) :=
  fun _ _ _ ht => nomatch ht.1

/-- A running thread goes on, and neither the queue of `l` nor the woken threads change. -/
theorem First.goOn (hW : Waker P held c l waker fresh) (h : First P held c l waker fresh s)
    {t : T} {a : Int} {r : Nat} (hrun : s.mode t = .running)
    (hloc : s'.loc = Function.update s.loc t (P.next (s.loc t) a r)) (hmode : s'.mode = s.mode)
    (hqueue : s'.queue l = s.queue l)
    (hheld : held (P.next (s.loc t) a r) l → held (s.loc t) l ∨ ∀ u, ¬ Woken P s c l u) :
    First P held c l waker fresh s' := by
  intro u m hm hu
  have hut : u ≠ t := by
    rintro rfl
    cases (hu.1.symm.trans (congrFun hmode u)).trans hrun
  have hu' : Woken P s c l u := by
    refine ⟨(congrFun hmode u).symm.trans hu.1, ?_⟩
    rw [← hu.2, hloc, Function.update_of_ne hut]
  rw [hmode, hqueue]
  by_cases hmt : m = t
  · subst hmt
    rw [hloc, Function.update_self] at hm ⊢
    have hwaker := (hW.next _ a r).mpr hm
    refine ⟨fun hq => (nomatch hrun.symm.trans hq), fun hnow => ?_⟩
    rcases hheld hnow with hbefore | hnone
    · exact hW.stays _ a r hwaker hnow hbefore ((h u m hwaker hu').2 hbefore)
    · exact absurd hu' (hnone u)
  · rw [hloc, Function.update_of_ne hmt] at hm ⊢
    exact h u m hm hu'

/-- **The woken go first**, after each piece of work. -/
theorem first_micro (hP : Discipline P held lockOf) (hW : Waker P held c l waker fresh)
    (hlock : lockOf c = l) (hunique : ∀ m m', waker (s.loc m) → waker (s.loc m') → m = m')
    (hlocked : Locked P held lockOf s) (h : First P held c l waker fresh s) {o : Option T}
    (hm : Micro P s o s') : First P held c l waker fresh s' := by
  cases hm with
  | @acquire t m hrun hreq howner hqueue =>
    have hafter := hP.after (s.loc t) 0 0 (by rw [hreq]; nofun)
    rw [hreq] at hafter
    refine h.goOn hW hrun rfl rfl rfl fun hheld => ?_
    rcases (hafter l).mp hheld with heq | hbefore
    · -- nobody waits for a lock that is free
      refine .inr fun u hu => ?_
      have hmem := (hlocked.queue l u).mpr hu.1
      rw [heq, hqueue] at hmem
      cases hmem
    · exact .inl hbefore
  | @enqueue t v m hrun hreq howner =>
    intro u w hw hu
    have hut : u ≠ t := by
      rintro rfl
      cases hreq.symm.trans hu.2
    have hu' : Woken P s c l u :=
      ⟨(Function.update_of_ne hut _ _).symm.trans hu.1, hu.2⟩
    have hmem := (hlocked.queue l u).mpr hu'.1
    refine ⟨fun hq => ?_, (h u w hw hu').2⟩
    show [u, w].Sublist (Function.update s.queue m (s.queue m ++ [t]) l)
    by_cases hwt : w = t
    · subst hwt
      cases (Function.update_self w _ s.mode).symm.trans hq
      rw [Function.update_self]
      exact (List.singleton_sublist.mpr hmem).append (List.Sublist.refl [w])
    · have hbefore := (h u w hw hu').1 ((Function.update_of_ne hwt _ _).symm.trans hq)
      by_cases hlm : l = m
      · subst hlm
        rw [Function.update_self]
        exact hbefore.trans (List.sublist_append_left _ _)
      · rw [Function.update_of_ne hlm]
        exact hbefore
  | @release t m r hrun hreq howner =>
    have hafter := hP.after (s.loc t) 0 r (by rw [hreq]; nofun)
    rw [hreq] at hafter
    exact h.goOn hW hrun rfl rfl rfl fun hheld => .inl ((hafter l).mp hheld).2
  | @sleep t d m hrun hreq howner =>
    intro u w hw hu
    have hut : u ≠ t := by
      rintro rfl
      cases (Function.update_self u _ s.mode).symm.trans hu.1
    have hu' : Woken P s c l u :=
      ⟨(Function.update_of_ne hut _ _).symm.trans hu.1, hu.2⟩
    refine ⟨fun hq => ?_, (h u w hw hu').2⟩
    have hwt : w ≠ t := by
      rintro rfl
      cases (Function.update_self w _ s.mode).symm.trans hq
    exact (h u w hw hu').1 ((Function.update_of_ne hwt _ _).symm.trans hq)
  | @wake t d m n r hrun hreq howner =>
    have hreq' : P.request (s.loc t) = .Signal d m ∨ P.request (s.loc t) = .Broadcast d m :=
      hreq.imp And.left And.left
    have hlockd : m = lockOf d := by
      have hin := hP.inOrder (s.loc t)
      rcases hreq' with heq | heq
      · rw [heq] at hin
        exact hin.1
      · rw [heq] at hin
        exact hin.1
    have hafter : held (P.next (s.loc t) 0 r) l ↔ held (s.loc t) l := by
      rcases hreq' with heq | heq
      · rw [hP.after _ 0 r (by rw [heq]; nofun), heq]
        rfl
      · rw [hP.after _ 0 r (by rw [heq]; nofun), heq]
        rfl
    have hnot : ∀ u, s.mode u = .running → u ∉ (s.waiters d).take n := fun u hu hmem => by
      cases hu.symm.trans ((hlocked.waiters d u).mp (List.mem_of_mem_take hmem))
    have hmode : ∀ u, ((s.wake d m n).goOn P t 0 r).mode u =
        if u ∈ (s.waiters d).take n then .queued m else s.mode u := fun u => rfl
    have hloc : ∀ u, u ≠ t → ((s.wake d m n).goOn P t 0 r).loc u = s.loc u := fun u hu =>
      Function.update_of_ne hu _ _
    have hself : ((s.wake d m n).goOn P t 0 r).loc t = P.next (s.loc t) 0 r :=
      Function.update_self _ _ _
    have hgrows : (s.queue l).Sublist (((s.wake d m n).goOn P t 0 r).queue l) := by
      show (s.queue l).Sublist (Function.update s.queue m _ l)
      by_cases hlm : l = m
      · subst hlm
        rw [Function.update_self]
        exact List.sublist_append_left _ _
      · rw [Function.update_of_ne hlm]
    intro u w hw hu
    have hut : u ≠ t := by
      rintro rfl
      have := hu.1
      rw [hmode, if_neg (hnot u hrun), hrun] at this
      cases this
    by_cases hdc : d = c
    · -- the waker itself: it holds the lock, and is fresh
      subst hdc
      have hwt : w = t := by
        by_cases hwt : w = t
        · exact hwt
        · rw [hloc w hwt] at hw
          exact hunique w t hw (hW.only _ m hreq').1
      subst hwt
      refine ⟨fun hq => ?_, fun _ => ?_⟩
      · rw [hmode, if_neg (hnot w hrun), hrun] at hq
        cases hq
      · rw [hself]
        exact hW.woke _ m r hreq'
    · have hold : u ∉ (s.waiters d).take n := fun hmem => by
        have hasleep := hlocked.asleep d u ((hlocked.waiters d u).mp (List.mem_of_mem_take hmem))
        have hwait := hu.2
        rw [hloc u hut, hasleep] at hwait
        cases hwait
        exact hdc rfl
      have hu' : Woken P s c l u := by
        refine ⟨?_, ?_⟩
        · rw [← hu.1, hmode, if_neg hold]
        · rw [← hu.2, hloc u hut]
      by_cases hwt : w = t
      · subst hwt
        rw [hself] at hw ⊢
        have hwaker := (hW.next _ 0 r).mpr hw
        refine ⟨fun hq => ?_, fun hnow => ?_⟩
        · rw [hmode, if_neg (hnot w hrun), hrun] at hq
          cases hq
        · have hbefore := hafter.mp hnow
          exact hW.stays _ 0 r hwaker hnow hbefore ((h u w hwaker hu').2 hbefore)
      · rw [hloc w hwt] at hw ⊢
        refine ⟨fun hq => ?_, (h u w hw hu').2⟩
        rw [hmode] at hq
        split at hq
        · -- a waker does not wait to be woken under this lock
          rename_i hmem
          cases hq
          have hasleep := hlocked.asleep d w ((hlocked.waiters d w).mp (List.mem_of_mem_take hmem))
          rw [← hlockd] at hasleep
          exact absurd hasleep (hW.awake _ d hw)
        · exact ((h u w hw hu').1 hq).trans hgrows
  | @refused t m r hrun hreq howner =>
    have hafter := hP.after (s.loc t) 0 r fun hq => by rw [hq] at hreq; exact hreq.elim
    refine h.goOn hW hrun rfl rfl rfl fun hheld => .inl ?_
    have hheld' := (hafter l).mp hheld
    cases hq : P.request (s.loc t) with
    | Release m' =>
      rw [hq] at hheld'
      exact hheld'.2
    | Acquire m' =>
      rw [hq] at hreq
      exact hreq.elim
    | _ =>
      rw [hq] at hheld'
      exact hheld'
  | @get t x i r hrun hreq =>
    have hafter := hP.after (s.loc t) (P.get s.val x i) r (by rw [hreq]; nofun)
    rw [hreq] at hafter
    exact h.goOn hW hrun rfl rfl rfl fun hheld => .inl ((hafter l).mp hheld)
  | @set t x i v r hrun hreq =>
    have hafter := hP.after (s.loc t) 0 r (by rw [hreq]; nofun)
    rw [hreq] at hafter
    exact h.goOn hW hrun rfl rfl rfl fun hheld => .inl ((hafter l).mp hheld)
  | @grant v m q howner hqueue =>
    have hv : s.mode v = .queued m :=
      (hlocked.queue m v).mp (by rw [hqueue]; exact List.mem_cons_self)
    have hmode : ∀ u, u ≠ v → (s.grantTo P m v q).mode u = s.mode u := fun u hu =>
      Function.update_of_ne hu _ _
    have hself : (s.grantTo P m v q).mode v = .running := Function.update_self _ _ _
    have hloc : ∀ u, u ≠ v → (s.grantTo P m v q).loc u = s.loc u := fun u hu =>
      Function.update_of_ne hu _ _
    have hlocv : (s.grantTo P m v q).loc v = P.next (s.loc v) 0 0 := Function.update_self _ _ _
    intro u w hw hu
    have huv : u ≠ v := by
      rintro rfl
      cases hself.symm.trans hu.1
    have hu' : Woken P s c l u :=
      ⟨(hmode u huv).symm.trans hu.1, by rw [← hu.2, hloc u huv]⟩
    by_cases hwv : w = v
    · subst hwv
      rw [hlocv] at hw ⊢
      have hwaker := (hW.next _ 0 0).mpr hw
      refine ⟨fun hq => (nomatch hself.symm.trans hq), fun hnow => ?_⟩
      by_cases hml : m = l
      · -- the waker would be ahead of a thread that is before it
        subst hml
        have hbefore := (h u w hwaker hu').1 hv
        rw [hqueue] at hbefore
        have hin : [u, w].Sublist q := by
          cases hbefore with
          | cons _ hrest => exact hrest
          | cons_cons _ hrest => exact absurd rfl huv
        have hnodup := hqueue ▸ hlocked.queueNodup m
        exact absurd (hin.subset (by simp)) (List.nodup_cons.mp hnodup).1
      · have hbefore : held (s.loc w) l := by
          rcases hlocked.queued m w hv with hreq | ⟨d, hreq⟩
          · have hafter := hP.after (s.loc w) 0 0 (by rw [hreq]; nofun)
            rw [hreq] at hafter
            exact ((hafter l).mp hnow).resolve_left fun heq => hml heq.symm
          · have hafter := hP.after (s.loc w) 0 0 (by rw [hreq]; nofun)
            rw [hreq] at hafter
            exact (hafter l).mp hnow
        exact hW.stays _ 0 0 hwaker hnow hbefore ((h u w hwaker hu').2 hbefore)
    · rw [hloc w hwv] at hw ⊢
      refine ⟨fun hq => ?_, (h u w hw hu').2⟩
      have hbefore := (h u w hw hu').1 ((hmode w hwv).symm.trans hq)
      show [u, w].Sublist (Function.update s.queue m q l)
      by_cases hlm : l = m
      · subst hlm
        rw [Function.update_self]
        rw [hqueue] at hbefore
        cases hbefore with
        | cons _ hrest => exact hrest
        | cons_cons _ hrest => exact absurd rfl huv
      · rw [Function.update_of_ne hlm]
        exact hbefore

end First

end Lib.Monitor

import Nachos.Passport.Served

/-!
# The passport office: clerks and customers meet

What a visitor and its clerk may rely on, at any moment of any day. The visitor is alone at the
counter, it was called there by its clerk while it held the line lock (`one_customer`), and
neither of the two ever signals while the other one does not sleep (`signals_heard`).
-/

namespace Nachos.Passport

open Lib Lib.Monitor

set_option linter.unusedSectionVars false

variable {T : Type} [DecidableEq T] [Fintype T] {o : Office T} {s s' : State T} {k : Kind}
  {i : Int} {t u : T} {q : Talk}

/-! ### Coming to a counter -/

/-- A process that has got the clerk's number, and comes: called by it, with the line lock. -/
structure Comes (s : State T) (k : Kind) (i : Int) (t : T) : Prop where
  looks : ∃ bribe, (s.loc t).visit = some ⟨k, bribe, .line (.look i)⟩
  called : Signaled s.val k i
  locked : s.owner (.lineLock k) = some t

theorem Loc.not_atCounter {p : Loc} (h : ¬ p.AtCounter k i) (q : Talk) : p.talk k i ≠ some q :=
  fun hq => h ⟨q, hq⟩

/-- **The way to a counter**, in a piece of the server's work. -/
theorem Office.Served.comes_micro (hs : o.Sound s) (hx : o.Served s) {w : Option T}
    (hm : Micro (program o.CLERKCOUNT) s w s') (hi : 0 ≤ i ∧ i < MAXCLERKS)
    (hbefore : ¬ (s.loc t).AtCounter k i) (hafter : (s'.loc t).AtCounter k i) :
    w = some t ∧ Comes s k i t := by
  have hnot : ∀ q, (s.loc t).talk k i ≠ some q := Loc.not_atCounter hbefore
  obtain ⟨q', hq'⟩ := hafter
  have hmoved : ∀ {u : T} {p : Loc}, s'.loc = Function.update s.loc u p →
      t = u ∧ p.talk k i = some q' := by
    intro u p hloc
    rw [hloc] at hq'
    by_cases hut : t = u
    · subst hut
      rw [Function.update_self] at hq'
      exact ⟨rfl, hq'⟩
    · rw [Function.update_of_ne hut] at hq'
      exact absurd hq' (hnot q')
  cases moved_micro (discipline _) hs.locked hm with
  | stops h =>
    rw [h.loc] at hq'
    exact absurd hq' (hnot q')
  | granted h =>
    -- a lock that is granted leads from one place of a visit to the next one
    obtain ⟨rfl, htalk⟩ := hmoved h.loc
    by_cases hline : (s.loc t).line k = some i
    · obtain ⟨c, hc, -⟩ := hx.clerk_of hline
      rw [hc] at htalk
      cases htalk
    · exact absurd htalk ((hx.stranger_waits ⟨hline, hnot⟩ (hs.locked.queued _ t h.queued)).2 q')
  | goes h =>
    obtain ⟨rfl, htalk⟩ := hmoved h.loc
    refine ⟨rfl, ?_⟩
    rcases Loc.talk_next htalk with ⟨bribe, q, hv, -⟩ | ⟨-, bribe, hv, ha⟩ | ⟨-, bribe, hv, ha⟩ |
      ⟨bribe, hv⟩
    · exact absurd (Loc.talk_iff.mpr ⟨bribe, hv⟩) (hnot q)
    · obtain ⟨number, -, hreq, hheld⟩ := Loc.visit_SSN hv
      rw [show (program o.CLERKCOUNT).request (s.loc t) = _ from hreq] at ha
      refine ⟨⟨bribe, hv⟩, ha, hs.locked.owner_of_held h.running ?_⟩
      rw [hheld]
      exact ⟨by rintro ⟨⟩, rfl⟩
    · obtain ⟨number, -, hreq, -⟩ := Loc.visit_SSN hv
      rw [show (program o.CLERKCOUNT).request (s.loc t) = _ from hreq] at ha
      exact absurd ha (hx.states k i hi)
    · exact absurd hv (hx.locked t k bribe i _)

/-- Nobody waits for a free lock, at the end of each step. -/
theorem Office.settled (h : Reachable o.Step o.init s) : s.Settled :=
  h.invariant settled_init fun _ _ _ hs hstep => (micro_of_step hs hstep).1

/-- **One customer at a counter**, all day: no two processes are at one counter; nobody takes the
way past the line lock; and who comes to a counter does so by its own request, called by the clerk
and with the line lock. -/
theorem Office.one_customer (h : Reachable o.Step o.init s) (hsmall : FewNumbers s) :
    (∀ k (i : Int), 0 ≤ i ∧ i < MAXCLERKS → ∀ t u,
      (s.loc t).AtCounter k i → (s.loc u).AtCounter k i → t = u) ∧
    (∀ t k bribe i p, (s.loc t).visit ≠ some ⟨k, bribe, .unlocked i p⟩) ∧
    ∀ a s', o.Step s a s' → ∀ t k (i : Int), 0 ≤ i ∧ i < MAXCLERKS →
      ¬ (s.loc t).AtCounter k i → (s'.loc t).AtCounter k i → t = a.1 ∧ Comes s k i t := by
  obtain ⟨hs, hex, hserved⟩ := served h
  have hx := hserved hsmall
  refine ⟨?_, hx.locked, ?_⟩
  · rintro k i hi t u ⟨q, hq⟩ ⟨q', hq'⟩
    exact (hx.counter k i hi).one t u q q' hq hq'
  · intro a s' hstep t k i hi hbefore hafter
    obtain ⟨-, s₁, hm, hlast⟩ := micro_of_step (settled h) hstep
    have hfirst : (s₁.loc t).AtCounter k i → t = a.1 ∧ Comes s k i t := fun hcomes => by
      obtain ⟨heq, hc⟩ := hx.comes_micro hs hm hi hbefore hcomes
      cases heq
      exact ⟨rfl, hc⟩
    by_cases hcomes : (s₁.loc t).AtCounter k i
    · exact hfirst hcomes
    · rcases hlast with rfl | hgrant
      · exact absurd hafter hcomes
      · -- a lock that is handed over brings nobody to a counter
        have hx₁ := served_micro hs hex hx hsmall hm
        cases (hx₁.comes_micro (sound_micro hs hm) hgrant hi hcomes hafter).1

/-- A picture clerk and a customer. -/
def counterDay : Office (Fin 2) where
  process t := if t = 0 then .clerk .picture else .customer 0 0
  STARTPASSPORT := false
  manager_unique t u := by
    revert t u
    decide

/-- The customer waits in line, and the clerk calls it and waits. -/
def clerkCalls : List (Fin 2 × Nat) :=
  List.replicate 18 (1, 0) ++ List.replicate 16 (0, 0) ++ List.replicate 2 (1, 0)

instance (s : State T) : Decidable (FewNumbers s) :=
  decidable_of_iff
    (∀ t, (s.loc t).SSN.all (fun n : Int => n < MAXCUSTOMERS + MAXSENATORS) = true) (by
      simp [FewNumbers, Option.all_eq_true])

theorem counterDay_comes : ∃ s s', Reachable counterDay.Step counterDay.init s ∧
    counterDay.Step s (1, 0) s' ∧ Comes s .picture 0 1 := by
  have hrun : (execute counterDay.step counterDay.init clerkCalls).any (fun s =>
      decide (FewNumbers s) &&
      decide ((s.loc 1).talk .picture 0 = none) &&
      (counterDay.step s (1, 0)).any fun s' => (s'.loc 1).talk .picture 0 = some .setBusy) =
      true := by
    decide +kernel
  obtain ⟨s, hs, hin⟩ := (Option.any_eq_true _ _).mp hrun
  obtain ⟨hin, hnext⟩ := Bool.and_eq_true_iff.mp hin
  obtain ⟨hsmall, hnot⟩ := Bool.and_eq_true_iff.mp hin
  obtain ⟨s', hs', hcomes⟩ := (Option.any_eq_true _ _).mp hnext
  have hreach : Reachable counterDay.Step counterDay.init s :=
    ⟨_, path_of_execute (fun _ _ _ => id) hs⟩
  have hone := Office.one_customer hreach (of_decide_eq_true hsmall)
  refine ⟨s, s', hreach, hs', (hone.2.2 (1, 0) s' hs' 1 .picture 0 (by decide) ?_ ?_).2⟩
  · rintro ⟨q, hq⟩
    cases (of_decide_eq_true hnot).symm.trans hq
  · exact ⟨.setBusy, of_decide_eq_true hcomes⟩

/-! ### Signals at a counter -/

/-- The process `u` sleeps there, and nobody else: a signal wakes it. -/
def Sleeps (s : State T) (c : CV) (u : T) : Prop :=
  ∀ v, s.mode v = .asleep c ↔ v = u

/-- The two at a counter. -/
structure Meet (s : State T) (k : Kind) (i : Int) (t : T) (c : Clerk) (u : T) (q : Talk) :
    Prop where
  clerk : s.loc t = .clerk c
  line : (s.loc t).line k = some i
  visitor : (s.loc u).talk k i = some q

theorem Office.Served.meets (hx : o.Served s) (hi : 0 ≤ i ∧ i < MAXCLERKS)
    (hu : (s.loc u).talk k i = some q) :
    ∃ t c, Meet s k i t c u q ∧
      Fits k i s.val (s.owner (.clerkLock k i) = none) c (s.mode t) (s.loc u).SSN q (s.mode u) := by
  have hd := hx.counter k i hi
  obtain ⟨t, ht⟩ := hd.attended u q hu
  obtain ⟨c, hc, -⟩ := hx.clerk_of ht
  exact ⟨t, c, ⟨hc, ht, hu⟩, hd.fits t c u q hc ht hu⟩

/-- Of the two at a counter, the one that sleeps is alone asleep there if the other is awake. -/
theorem Office.Served.sleeps (hs : o.Sound s) (hx : o.Served s) (hi : 0 ≤ i ∧ i < MAXCLERKS)
    {c : Clerk} (h : Meet s k i t c u q) {v w : T} (hv : (v = t ∧ w = u) ∨ (v = u ∧ w = t))
    (hasleep : s.mode v = .asleep (.clerkCV k i)) (hawake : s.mode w = .running) :
    Sleeps s (.clerkCV k i) v := by
  intro x
  refine ⟨fun hmode => ?_, fun heq => by rw [heq]; exact hasleep⟩
  have hother : x = t ∨ x = u := by
    rcases hx.sleeper hs hmode with hline | ⟨q', hq'⟩
    · exact .inl (hx.line_unique h.line x hline)
    · exact .inr ((hx.counter k i hi).one x u q' q hq' h.visitor)
  rcases hv with ⟨rfl, rfl⟩ | ⟨rfl, rfl⟩
  · rcases hother with heq | rfl
    · exact heq
    · cases hawake.symm.trans hmode
  · rcases hother with rfl | heq
    · cases hawake.symm.trans hmode
    · exact heq

/-- A clerk that signals at its counter runs. -/
theorem Office.Sound.signalling (hs : o.Sound s) {c : Clerk} (hc : s.loc t = .clerk c)
    {d : CV} {l : Lock} (hreq : c.request = .Signal d l) : s.mode t = .running := by
  have hloc : (program o.CLERKCOUNT).request (s.loc t) = .Signal d l := by
    rw [hc]
    exact hreq
  exact hs.locked.running (by simp [hloc]) (by simp [hloc])

/-- No visitor sleeps while its clerk is away. -/
theorem Fits.engaged {val : MV → Int → Int} {free : Prop} {c : Clerk} {mc : Mode Lock CV}
    {SSN : Option Int} {d : CV} (h : Fits k i val free c mc SSN q (.asleep d))
    (hk : c.kind = k) (hi : c.myLine = i) (hq : q = .wait ∨ q = .waitPicture ∨ q = .waitPassport) :
    c.Engaged mc := by
  have hnot : ∀ {free'}, ¬ q.leaves k i val free' (.asleep d) := by
    rcases hq with rfl | rfl | rfl <;> simp [Talk.leaves]
  by_cases haway : c.pc.away = true
  · exact absurd ((fits_away haway).mp h) hnot
  · obtain ⟨k', myLine, money, fromLine, SSN, pc⟩ := c
    obtain rfl : k' = k := hk
    obtain rfl : myLine = i := hi
    cases pc with
    | call p => cases p with
      | acquireClerk => exact absurd h.1 hnot
      | releaseLine => exact h.elim
      | _ => exact absurd rfl haway
    | serve p => cases p with
      | wait =>
        refine ⟨_, rfl, by simp, fun _ => ?_⟩
        rcases h with ⟨-, harrives, -⟩ | ⟨-, harrives⟩ | ⟨hmode, -⟩
        · rcases hq with rfl | rfl | rfl <;> exact harrives.elim
        · rcases hq with rfl | rfl | rfl <;> exact harrives.elim
        · exact hmode
      | setApplicationCompletion => exact absurd rfl haway
      | _ => exact ⟨_, rfl, by simp, by simp⟩
    | _ => exact absurd rfl haway

/-- **No signal at a counter is lost.** When a visitor signals its clerk sleeps there, alone; when
the clerk signals its customer does, with the number that the clerk has noted; and no visitor
sleeps at the counter unless its clerk is serving. -/
theorem Office.signals_heard (h : Reachable o.Step o.init s) (hsmall : FewNumbers s) :
    (∀ u k i q, (s.loc u).talk k i = some q →
      (q = .signal ∨ q = .signalPicture ∨ q = .signalMoney) →
      ∃ t c, s.loc t = .clerk c ∧ (s.loc t).line k = some i ∧ Sleeps s (.clerkCV k i) t) ∧
    (∀ t c p, s.loc t = .clerk c → c.pc = .serve p →
      (p = .signalShow ∨ p = .signalCertified ∨ p = .signal) →
      ∃ u, (s.loc u).AtCounter c.kind c.myLine ∧ (s.loc u).SSN = some c.customerSSN ∧
        Sleeps s (.clerkCV c.kind c.myLine) u) ∧
    ∀ u k i, s.mode u = .asleep (.clerkCV k i) → (s.loc u).AtCounter k i →
      ∃ t c, s.loc t = .clerk c ∧ (s.loc t).line k = some i ∧ c.Engaged (s.mode t) := by
  obtain ⟨hs, -, hserved⟩ := served h
  have hx := hserved hsmall
  refine ⟨?_, ?_, ?_⟩
  · intro u k i q hu hq
    have hi := hx.seated u k i q hu (by rcases hq with rfl | rfl | rfl <;> simp)
    have hrun := hs.reading hu (by rcases hq with rfl | rfl | rfl <;> simp)
    obtain ⟨t, c, hmeet, hfits⟩ := hx.meets hi hu
    rw [hrun] at hfits
    have hasleep : s.mode t = .asleep (.clerkCV k i) := by
      rcases hq with rfl | hq
      · obtain ⟨-, -, ⟨-, -, hne⟩ | hasleep⟩ := hfits.arriving (by simp)
        · exact absurd rfl hne
        · exact hasleep
      · exact (hfits.answering (.inr (hq.imp id .inr))).1
    exact ⟨t, c, hmeet.clerk, hmeet.line,
      hx.sleeps hs hi hmeet (.inl ⟨rfl, rfl⟩) hasleep hrun⟩
  · intro t c p hc hpc hp
    obtain ⟨hi, hline, u, q, hu, hfits⟩ :=
      hx.facing hc hpc (by rcases hp with rfl | rfl | rfl <;> simp)
    have hrun : s.mode t = .running := hs.signalling hc (d := .clerkCV c.kind c.myLine)
      (l := .clerkLock c.kind c.myLine) (by
        unfold Clerk.request
        rw [hpc]
        rcases hp with rfl | rfl | rfl <;> rfl)
    have hasleep : s.mode u = .asleep (.clerkCV c.kind c.myLine) ∧
        (s.loc u).SSN = some c.customerSSN := by
      unfold Fits at hfits
      rw [hpc] at hfits
      rcases hp with rfl | rfl | rfl
      · exact ⟨hfits.2.1, hfits.2.2.1⟩
      · exact hfits.2
      · exact hfits.2
    exact ⟨u, ⟨q, hu⟩, hasleep.2,
      hx.sleeps hs hi ⟨hc, hline, hu⟩ (.inr ⟨rfl, rfl⟩) hasleep.1 hrun⟩
  · rintro u k i hasleep ⟨q, hu⟩
    have hq : q = .wait ∨ q = .waitPicture ∨ q = .waitPassport := by
      rcases (hs.visitor_waits hu).2.2 (by rw [hasleep]; rintro ⟨⟩) with rfl | hq
      · obtain ⟨bribe, hv⟩ := Loc.talk_iff.mp hu
        obtain ⟨number, -, hreq, -⟩ := Loc.visit_SSN hv
        have hwait := hs.locked.asleep _ u hasleep
        rw [show (program o.CLERKCOUNT).request (s.loc u) = acquireClerkLock k i from hreq] at hwait
        unfold acquireClerkLock at hwait
        split at hwait <;> cases hwait
      · exact hq
    have hi := hx.seated u k i q hu (by rcases hq with rfl | rfl | rfl <;> simp)
    obtain ⟨t, c, hmeet, hfits⟩ := hx.meets hi hu
    obtain ⟨c', hc', hk, hline, -⟩ := hx.clerk_of hmeet.line
    cases hmeet.clerk.symm.trans hc'
    rw [hasleep] at hfits
    exact ⟨t, c, hmeet.clerk, hmeet.line, hfits.engaged hk hline hq⟩

theorem counterDay_heard : ∃ s, Reachable counterDay.Step counterDay.init s ∧
    (s.loc 1).talk .picture 0 = some .signal ∧
    ∃ t c, s.loc t = .clerk c ∧ (s.loc t).line .picture = some 0 ∧
      Sleeps s (.clerkCV .picture 0) t := by
  have hrun : (execute counterDay.step counterDay.init
      (clerkCalls ++ List.replicate 5 (1, 0))).any (fun s =>
      decide (FewNumbers s) &&
      decide ((s.loc 1).talk .picture 0 = some .signal)) = true := by
    decide +kernel
  obtain ⟨s, hs, hin⟩ := (Option.any_eq_true _ _).mp hrun
  obtain ⟨hsmall, htalk⟩ := Bool.and_eq_true_iff.mp hin
  have hreach : Reachable counterDay.Step counterDay.init s :=
    ⟨_, path_of_execute (fun _ _ _ => id) hs⟩
  have hheard := Office.signals_heard hreach (of_decide_eq_true hsmall)
  exact ⟨s, hreach, of_decide_eq_true htalk,
    hheard.1 1 .picture 0 .signal (of_decide_eq_true htalk) (.inl rfl)⟩

end Nachos.Passport

import Nachos.Passport.Service

/-!
# The passport office: the counters, through the server's work

A process that stops, goes on or is given its lock is the clerk of a counter, its visitor, or a
stranger to it. In each of the nine cases the two at the counter go on fitting, and nobody comes
to it but with the ticket (`AtCounter.micro`).
-/

namespace Nachos.Passport

open Lib Lib.Monitor

set_option linter.unusedSectionVars false

/-! ### What the two at a counter wait for -/

theorem acquireClerkLock_of {k : Kind} {i : Int} (h : 0 ≤ i ∧ i < MAXCLERKS) :
    acquireClerkLock k i = .Acquire (.clerkLock k i) := if_pos h

/-- Where a visitor waits, and where it takes the lock. -/
theorem Visit.talk_blocks {k : Kind} {bribe : Bool} {i SSN : Int} {q : Talk} {l : Lock}
    (h : (Visit.mk k bribe (.talk i q)).request SSN = .Acquire l ∨
      ∃ c, (Visit.mk k bribe (.talk i q)).request SSN = .Wait c l) :
    l = .clerkLock k i ∧
      (((Visit.mk k bribe (.talk i q)).request SSN = .Acquire l ∧ q = .acquire) ∨
        ((Visit.mk k bribe (.talk i q)).request SSN = .Wait (.clerkCV k i) l ∧
          (q = .wait ∨ q = .waitPicture ∨ q = .waitPassport))) := by
  cases q with
  | acquire =>
    rcases h with h | ⟨c, h⟩
    · have hlock : acquireClerkLock k i = .Acquire l := h
      refine ⟨?_, .inl ⟨h, rfl⟩⟩
      unfold acquireClerkLock at hlock
      split at hlock <;> cases hlock
      rfl
    · have hlock : acquireClerkLock k i = .Wait c l := h
      unfold acquireClerkLock at hlock
      split at hlock <;> cases hlock
  | wait | waitPicture | waitPassport =>
    rcases h with h | ⟨c, h⟩
    · cases h
    · cases h
      exact ⟨rfl, .inr ⟨rfl, by simp⟩⟩
  | _ => rcases h with h | ⟨c, h⟩ <;> cases h

/-- Where a visitor signals its clerk. -/
theorem Visit.talk_signals {k : Kind} {bribe : Bool} {i SSN : Int} {q : Talk} :
    (Visit.mk k bribe (.talk i q)).request SSN = .Signal (.clerkCV k i) (.clerkLock k i) ↔
      q = .signal ∨ q = .signalPicture ∨ q = .signalMoney := by
  constructor
  · intro h
    cases q with
    | signal => exact .inl rfl
    | signalPicture => exact .inr (.inl rfl)
    | signalMoney => exact .inr (.inr rfl)
    | acquire =>
      have hlock : acquireClerkLock k i = .Signal (.clerkCV k i) (.clerkLock k i) := h
      unfold acquireClerkLock at hlock
      split at hlock <;> cases hlock
    | _ => cases h
  · rintro (rfl | rfl | rfl) <;> rfl

/-- A visitor wakes nobody else. -/
theorem Visit.talk_wakes {k : Kind} {bribe : Bool} {i SSN : Int} {q : Talk} {d : CV} {l : Lock}
    (h : (Visit.mk k bribe (.talk i q)).request SSN = .Signal d l ∨
      (Visit.mk k bribe (.talk i q)).request SSN = .Broadcast d l) :
    q = .signal ∨ q = .signalPicture ∨ q = .signalMoney := by
  cases q with
  | signal => exact .inl rfl
  | signalPicture => exact .inr (.inl rfl)
  | signalMoney => exact .inr (.inr rfl)
  | acquire =>
    have hlock : acquireClerkLock k i = .Signal d l ∨ acquireClerkLock k i = .Broadcast d l := h
    unfold acquireClerkLock at hlock
    split at hlock <;> rcases hlock with hlock | hlock <;> cases hlock
  | _ => rcases h with h | h <;> cases h

/-- A visitor sets the state of its clerk to `BUSY`. -/
theorem Visit.talk_sets {k : Kind} {bribe : Bool} {i SSN v : Int} {q : Talk}
    (h : (Visit.mk k bribe (.talk i q)).request SSN = .Set (.clerkState k) i v) : v = BUSY := by
  cases q with
  | setBusy =>
    cases h
    rfl
  | acquire => exact absurd h not_set_acquireClerkLock
  | _ => cases h

/-- Where a clerk waits. -/
theorem Clerk.waits {c : Clerk} {d : CV} {l : Lock} (h : c.request = .Wait d l) :
    (c.pc = .call (.onBreak .wait) ∧ d = .breakCV c.kind ∧ l = .lineLock c.kind) ∨
      ∃ p, c.pc = .serve p ∧ d = .clerkCV c.kind c.myLine ∧ l = .clerkLock c.kind c.myLine := by
  obtain ⟨k, myLine, money, fromLine, SSN, pc⟩ := c
  cases pc with
  | draw p => cases p <;> cases h
  | senator p => cases p <;> cases h
  | call p => cases p with
    | acquireClerk =>
      have hlock : acquireClerkLock k myLine = .Wait d l := h
      unfold acquireClerkLock at hlock
      split at hlock <;> cases hlock
    | onBreak p =>
      cases p <;> cases h
      exact .inl ⟨rfl, rfl, rfl⟩
    | _ => cases h
  | serve p => cases p <;> cases h <;> exact .inr ⟨_, rfl, rfl, rfl⟩
  | exited => cases h

/-- A clerk takes its own lock in one place. -/
theorem Clerk.acquires {c : Clerk} {k : Kind} {i : Int} (h : c.request = .Acquire (.clerkLock k i)) :
    c.pc = .call .acquireClerk := by
  obtain ⟨k', myLine, money, fromLine, SSN, pc⟩ := c
  cases pc with
  | draw p => cases p <;> cases h
  | senator p => cases p <;> cases h
  | call p => cases p with
    | acquireClerk => rfl
    | onBreak p => cases p <;> cases h
    | _ => cases h
  | serve p => cases p <;> cases h
  | exited => cases h

/-- There it waits for its own lock. -/
theorem Clerk.waits_own {c : Clerk} {l : Lock} (hpc : c.pc = .call .acquireClerk)
    (h : c.request = .Acquire l ∨ ∃ d, c.request = .Wait d l) : l = .clerkLock c.kind c.myLine := by
  obtain ⟨k, myLine, money, fromLine, SSN, pc⟩ := c
  cases hpc
  have hlock : acquireClerkLock k myLine = .Acquire l ∨
    ∃ d, acquireClerkLock k myLine = .Wait d l := h
  unfold acquireClerkLock at hlock
  split at hlock
  · rcases hlock with hlock | ⟨d, hlock⟩ <;> cases hlock
    rfl
  · rcases hlock with hlock | ⟨d, hlock⟩ <;> cases hlock

/-- A clerk releases its own lock when it holds it. -/
theorem Clerk.releases {c : Clerk} {k : Kind} {i : Int} (h : c.request = .Release (.clerkLock k i)) :
    c.held (.clerkLock k i) := by
  obtain ⟨k', myLine, money, fromLine, SSN, pc⟩ := c
  cases pc with
  | draw p => cases p <;> cases h
  | senator p => cases p <;> cases h
  | call p => cases p with
    | acquireClerk =>
      have hlock : acquireClerkLock k' myLine = .Release (.clerkLock k i) := h
      unfold acquireClerkLock at hlock
      split at hlock <;> cases hlock
    | onBreak p => cases p <;> cases h
    | _ => cases h
  | serve p =>
    cases p <;> cases h
    rfl
  | exited => cases h

/-- A clerk calls a customer in one place. -/
theorem Clerk.sets_signaled {c : Clerk} {k : Kind} {i : Int}
    (h : c.request = .Set (.clerkState k) i SIGNALEDCUSTOMER) : c.pc = .call .setSignaled := by
  obtain ⟨k', myLine, money, fromLine, SSN, pc⟩ := c
  cases pc with
  | draw p => cases p <;> cases h
  | senator p => cases p <;> cases h
  | call p => cases p with
    | acquireClerk => exact absurd h not_set_acquireClerkLock
    | setSignaled => rfl
    | onBreak p => cases p <;> cases h
    | _ => cases h
  | serve p => cases p <;> cases h
  | exited => cases h

/-- A clerk wakes one at a time. -/
theorem Clerk.not_broadcasts (c : Clerk) (d : CV) (l : Lock) : c.request ≠ .Broadcast d l := by
  intro h
  obtain ⟨k', myLine, money, fromLine, SSN, pc⟩ := c
  cases pc with
  | draw p => cases p <;> cases h
  | senator p => cases p <;> cases h
  | call p => cases p with
    | acquireClerk =>
      have hlock : acquireClerkLock k' myLine = .Broadcast d l := h
      unfold acquireClerkLock at hlock
      split at hlock <;> cases hlock
    | onBreak p => cases p <;> cases h
    | _ => cases h
  | serve p => cases p <;> cases h
  | exited => cases h

/-- The line is kept once it is drawn. -/
theorem Clerk.line_kept {c : Clerk} {n : Nat} {a i : Int} {r : Nat} (h : c.line = some i) :
    (c.next n a r).line = some i := by
  rw [c.line_next n a r]
  · exact h
  · intro j v hset
    obtain ⟨k', myLine, money, fromLine, SSN, pc⟩ := c
    cases pc with
    | draw p => cases p with
      | release => cases hset
      | _ => cases h
    | senator p => cases p <;> cases hset
    | call p => cases p with
      | acquireClerk => exact not_set_acquireClerkLock hset
      | onBreak p => cases p <;> cases hset
      | _ => cases hset
    | serve p => cases p <;> cases hset
    | exited => cases hset

theorem Loc.line_kept {p : Loc} {k : Kind} {n : Nat} {a i : Int} {r : Nat}
    (h : p.line k = some i) : (p.next n a r).line k = some i := by
  obtain ⟨c, rfl, hk, -, hline⟩ := line_clerk h
  show (if (c.next n a r).kind = k then (c.next n a r).line else none) = some i
  rw [if_pos ((c.next_kind n a r).trans hk)]
  exact Clerk.line_kept hline

/-- Who goes on at a counter stays there, up to its release of the clerk's lock. -/
theorem Visit.talk_goes (n : Nat) (k : Kind) (bribe : Bool) (i a : Int) (r : Nat) {q : Talk}
    (h : ∀ done, q ≠ .release done) :
    ∃ q', (Visit.mk k bribe (.talk i q)).next n a r = .at (.talk i q') := by
  cases q with
  | release done => exact absurd rfl (h done)
  | wait => cases k <;> exact ⟨_, rfl⟩
  | getPicture | getRejection =>
    simp only [next, Talk.next]
    split <;> exact ⟨_, rfl⟩
  | _ => exact ⟨_, rfl⟩

/-- A clerk that is serving was so before, or has come from its place in line. -/
theorem Clerk.engaged_next {n : Nat} {c : Clerk} {a : Int} {r : Nat} {m : Mode Lock CV}
    (h : (c.next n a r).Engaged .running)
    (hm : c.pc = .serve .wait → m = .queued (.clerkLock c.kind c.myLine)) : c.Engaged m := by
  obtain ⟨p', hp', hnot, hwait⟩ := h
  obtain ⟨k', myLine, money, fromLine, SSN, pc⟩ := c
  cases pc with
  | serve p =>
    refine ⟨p, rfl, ?_, fun hp => hm (by rw [hp])⟩
    rintro rfl
    cases hp'
  | draw p => cases p <;> cases hp'
  | senator p => cases p with
    | release waiting => cases waiting <;> cases hp'
    | _ => cases hp'
  | call p => cases p with
    | onBreak p => cases p with
      | releaseEnd => cases hp'
      | _ =>
        simp only [next, nextCall] at hp'
        split at hp' <;> cases hp'
    | getBribeLineCount | getLineCount =>
      simp only [next, nextCall] at hp'
      split at hp' <;> cases hp'
    | releaseLine =>
      cases hp'
      cases hwait rfl
    | _ => cases hp'
  | exited => cases hp'

/-! ### The processes at a counter -/

section Desk

variable {T : Type} [DecidableEq T] [Fintype T] {o : Office T} {s s' : State T} {k : Kind}
  {i : Int} {t u : T} {q : Talk}

/-- A visitor waits for its clerk, and for its clerk's lock. -/
theorem Office.Sound.visitor_waits (hs : o.Sound s) (hu : (s.loc u).talk k i = some q) :
    (∀ c, s.mode u = .asleep c → c = .clerkCV k i) ∧
      (∀ l, s.mode u = .queued l → l = .clerkLock k i) ∧
      (s.mode u ≠ .running → q = .acquire ∨ q = .wait ∨ q = .waitPicture ∨ q = .waitPassport) := by
  obtain ⟨bribe, hv⟩ := Loc.talk_iff.mp hu
  obtain ⟨number, -, hreq, -⟩ := Loc.visit_SSN hv
  have hasleep : ∀ c, s.mode u = .asleep c → c = .clerkCV k i ∧
      (q = .wait ∨ q = .waitPicture ∨ q = .waitPassport) := by
    intro c hc
    have hwait := hs.locked.asleep c u hc
    rw [show (program o.CLERKCOUNT).request (s.loc u) = _ from hreq] at hwait
    obtain ⟨-, ⟨hacq, -⟩ | ⟨hsame, hq⟩⟩ := Visit.talk_blocks (.inr ⟨c, hwait⟩)
    · cases hacq.symm.trans hwait
    · cases hsame.symm.trans hwait
      exact ⟨rfl, hq⟩
  have hqueued : ∀ l, s.mode u = .queued l → l = .clerkLock k i ∧
      (q = .acquire ∨ q = .wait ∨ q = .waitPicture ∨ q = .waitPassport) := by
    intro l hl
    have hwait := hs.locked.queued l u hl
    rw [show (program o.CLERKCOUNT).request (s.loc u) = _ from hreq] at hwait
    obtain ⟨hlock, ⟨-, hq⟩ | ⟨-, hq⟩⟩ := Visit.talk_blocks hwait
    · exact ⟨hlock, .inl hq⟩
    · exact ⟨hlock, .inr hq⟩
  refine ⟨fun c hc => (hasleep c hc).1, fun l hl => (hqueued l hl).1, fun hnot => ?_⟩
  cases hmode : s.mode u with
  | running => exact absurd hmode hnot
  | queued l => exact (hqueued l hmode).2
  | asleep c => exact .inr (hasleep c hmode).2

/-- A visitor that runs owns the clerk's lock, once it has taken it. -/
theorem Office.Sound.visitor_owns (hs : o.Sound s) (hu : (s.loc u).talk k i = some q)
    (hrun : s.mode u = .running) (hq : q ≠ .setBusy ∧ q ≠ .releaseLine ∧ q ≠ .acquire) :
    s.owner (.clerkLock k i) = some u := by
  obtain ⟨bribe, hv⟩ := Loc.talk_iff.mp hu
  obtain ⟨number, -, -, hheld⟩ := Loc.visit_SSN hv
  refine hs.locked.owner_of_held hrun ?_
  rw [hheld]
  cases q <;> simp_all [Visit.held]

/-- Who sleeps at a counter is its clerk or its visitor. -/
theorem Office.Served.sleeper (hs : o.Sound s) (hx : o.Served s)
    (hu : s.mode u = .asleep (.clerkCV k i)) :
    (s.loc u).line k = some i ∨ ∃ q, (s.loc u).talk k i = some q := by
  have hwait : (s.loc u).request = .Wait (.clerkCV k i) (.clerkLock k i) := hs.locked.asleep _ u hu
  have hconcerns : Concerns k i (s.loc u).request := by rw [hwait]; rfl
  rcases Loc.concerned (hx.proper u) hconcerns with hline | hq | hunlocked
  · exact .inl hline
  · exact .inr hq
  · exact absurd hunlocked (hx.not_unlocked u)

theorem Office.Served.line_unique (hx : o.Served s) (ht : (s.loc t).line k = some i) :
    ∀ u, (s.loc u).line k = some i → u = t :=
  fun u hu => (hx.lines k).unique u t i hu ht

/-- The only one in a list is at its front. -/
theorem mem_take_one {α : Type} {l : List α} {a : α} (hmem : a ∈ l) (hall : ∀ b ∈ l, b = a) :
    a ∈ l.take 1 := by
  cases l with
  | nil => cases hmem
  | cons b l =>
    rw [hall b List.mem_cons_self]
    exact List.mem_cons_self

/-- **A signal at the counter wakes the other one.** -/
theorem Office.Sound.signal_wakes (hs : o.Sound s) {r : Nat}
    (h : Goes (program o.CLERKCOUNT) s s' t r)
    (hreq : (s.loc t).request = .Signal (.clerkCV k i) (.clerkLock k i))
    (howner : s.owner (.clerkLock k i) = some t) (hu : s.mode u = .asleep (.clerkCV k i))
    (honly : ∀ v, s.mode v = .asleep (.clerkCV k i) → v = u) :
    s'.mode u = .queued (.clerkLock k i) := by
  rw [h.signals _ _ hreq howner]
  refine if_pos (mem_take_one ((hs.locked.waiters _ _).mpr hu) fun v hv => ?_)
  exact honly v ((hs.locked.waiters _ _).mp hv)

/-! ### A process stops -/

theorem AtCounter.clerk_stops (hd : AtCounter s k i) (hs : o.Sound s) (hx : o.Served s)
    {m : Mode Lock CV} (h : Stops (program o.CLERKCOUNT) s s' t m)
    (hline : (s.loc t).line k = some i) : AtCounter s' k i := by
  obtain ⟨c, hc, hk, hi, -, hof⟩ := hx.clerk_of hline
  have hloc : ∀ u, s'.loc u = s.loc u := fun u => by rw [h.loc]
  have hself : s'.mode t = m := by rw [h.mode, Function.update_self]
  have hother : ∀ u, u ≠ t → s'.mode u = s.mode u := fun u hu => by
    rw [h.mode, Function.update_of_ne hu]
  have hne : ∀ u q, (s.loc u).talk k i = some q → u ≠ t := by
    rintro u q hu rfl
    rw [Loc.line_of_talk hu] at hline
    cases hline
  have hreq : (program o.CLERKCOUNT).request (s.loc t) = c.request := by
    rw [hc]
    rfl
  -- a clerk that waits at its counter waits for its visitor
  have hserving : ∀ p, c.pc = .serve p → m = .asleep (.clerkCV k i) := by
    intro p hp
    rcases h.why with ⟨l, u, hacq, -⟩ | ⟨d, l, hwait, -, rfl, -⟩
    · rw [hreq] at hacq
      obtain ⟨k', myLine, money, fromLine, SSN, pc⟩ := c
      cases hp
      cases p <;> cases hacq
    · rw [hreq] at hwait
      rcases Clerk.waits hwait with ⟨hpc, -⟩ | ⟨p', -, rfl, -⟩
      · cases hp.symm.trans hpc
      · rw [hk, hi]
  refine hd.clerk_moved (hx.line_unique hline) hc ((hloc t).trans hc)
    (by rw [hloc]; exact hline) (fun u _ => hloc u) ?_ ?_ ?_ ?_
  · intro u q hu
    have hfits := hd.fits t c u q hc hline hu
    rw [h.running] at hfits
    rw [hself, hother u (hne u q hu), h.val]
    refine hfits.clerk_stops hk hi (fun hq => hs.reading hu ?_) ?_ fun hfree => ?_
    · rcases hq with rfl | rfl | ⟨done, rfl⟩ <;> simp
    · rcases h.why with ⟨l, v, hacq, howner, hm, -⟩ | ⟨d, l, hwait, -, hm, -⟩
      · refine .inl ⟨l, hreq ▸ hacq, hm, ?_⟩
        rintro rfl hfree
        cases howner.symm.trans hfree
      · exact .inr ⟨d, l, hreq ▸ hwait, hm⟩
    · rcases h.why with ⟨-, -, -, -, -, howner⟩ | ⟨-, l, -, -, -, howner⟩
      · rw [howner]
        exact hfree
      · rw [howner]
        by_cases hl : Lock.clerkLock k i = l
        · rw [hl, Function.update_self]
        · rw [Function.update_of_ne hl]
          exact hfree
  · intro hsig
    rw [h.val] at hsig
    obtain ⟨v, d, hd', hline', hcalled⟩ := hd.signaled hsig
    obtain rfl := hx.line_unique hline v hline'
    cases hc.symm.trans hd'
    rw [hself]
    rcases hcalled with hpc | hpc | ⟨hpc, -⟩
    · exact .inl hpc
    · exact .inr (.inl hpc)
    · refine .inr (.inr ⟨hpc, ?_⟩)
      rw [hserving _ hpc]
      simp
  · intro hsig u q hu
    rw [h.val] at hsig
    rcases hd.alone hsig u q hu with hq | ⟨v, d, hd', hline', hpc⟩
    · exact .inl hq
    · obtain rfl := hx.line_unique hline v hline'
      cases hc.symm.trans hd'
      exact .inr hpc
  · rintro ⟨p, hp, hnot, hwait⟩
    refine hd.engaged t c hc hline ⟨p, hp, hnot, fun hp' => ?_⟩
    have hm := hwait hp'
    rw [hself, hserving p hp] at hm
    cases hm

theorem AtCounter.visitor_stops (hd : AtCounter s k i) {m : Mode Lock CV}
    (h : Stops (program o.CLERKCOUNT) s s' t m) (ht : (s.loc t).talk k i = some q) :
    AtCounter s' k i := by
  have hloc : ∀ u, s'.loc u = s.loc u := fun u => by rw [h.loc]
  have hself : s'.mode t = m := by rw [h.mode, Function.update_self]
  have hclerk : ∀ v, (s.loc v).line k = some i → s'.mode v = s.mode v := by
    intro v hv
    rw [h.mode, Function.update_of_ne]
    rintro rfl
    rw [Loc.line_of_talk ht] at hv
    cases hv
  obtain ⟨bribe, hv⟩ := Loc.talk_iff.mp ht
  obtain ⟨number, -, hreq, -⟩ := Loc.visit_SSN hv
  -- it waits for the lock, or for the clerk
  have hwhy : (q = .acquire ∨ q = .wait ∨ q = .waitPicture ∨ q = .waitPassport) ∧
      (q ≠ .acquire → m = .asleep (.clerkCV k i)) := by
    rcases h.why with ⟨l, u, hacq, -⟩ | ⟨c, l, hwait, -, rfl, -⟩
    · rw [show (program o.CLERKCOUNT).request (s.loc t) = _ from hreq] at hacq
      obtain ⟨-, ⟨-, hq⟩ | ⟨hwait, -⟩⟩ := Visit.talk_blocks (.inl hacq)
      · exact ⟨.inl hq, fun hnot => absurd hq hnot⟩
      · cases hwait.symm.trans hacq
    · rw [show (program o.CLERKCOUNT).request (s.loc t) = _ from hreq] at hwait
      obtain ⟨-, ⟨hacq, -⟩ | ⟨hsame, hq⟩⟩ := Visit.talk_blocks (.inr ⟨c, hwait⟩)
      · cases hacq.symm.trans hwait
      · cases hsame.symm.trans hwait
        exact ⟨.inr hq, fun _ => rfl⟩
  refine hd.visitor_moved ht ?_ (fun u _ => hloc u) ?_ ?_ ?_ ?_ ?_
  · rw [hloc, Loc.line_of_talk ht]
    rintro ⟨⟩
  · intro v c q' hc hline hq'
    rw [hloc] at hq' ⊢
    cases ht.symm.trans hq'
    have hfits := hd.fits v c t q hc hline ht
    rw [h.running] at hfits
    rw [hclerk v hline, hself, h.val]
    exact hfits.visitor_stops hwhy.1 hwhy.2
  · rw [h.val]
    exact id
  · intro _ v c _ hline hcalled
    rw [hclerk v hline]
    exact hcalled
  · intro _ q' hq' hset
    rw [hloc] at hq'
    cases ht.symm.trans hq'
    exact hset
  · intro v c _ _ _
    exact ⟨q, by rw [hloc]; exact ht⟩

theorem AtCounter.stranger_stops (hd : AtCounter s k i) (hx : o.Served s) {m : Mode Lock CV}
    (h : Stops (program o.CLERKCOUNT) s s' t m) (ht : (s.loc t).Stranger k i) :
    AtCounter s' k i := by
  have hmode : ∀ u, u ≠ t → s'.mode u = s.mode u := fun u hu => by
    rw [h.mode, Function.update_of_ne hu]
  refine hd.frame hx.proper ht (by rw [h.loc]; exact ht) (fun u _ => by rw [h.loc]) ?_ ?_
    (by rw [h.val]) (by rw [h.val]) (fun _ => by rw [h.val]) ?_
  · intro u q hu
    refine hmode u ?_
    rintro rfl
    exact ht.2 q hu
  · intro u c _ hline
    refine .inl (hmode u ?_)
    rintro rfl
    exact ht.1 hline
  · rcases h.why with ⟨-, -, -, -, -, howner⟩ | ⟨c, l, hreq, -, -, howner⟩
    · rw [howner]
    · rw [howner, Function.update_of_ne]
      rintro rfl
      refine hx.stranger ht ?_
      rw [show (s.loc t).request = _ from hreq]
      rfl

/-- **A process that stops** leaves those at the counter fitting. -/
theorem AtCounter.stops (hd : AtCounter s k i) (hs : o.Sound s) (hx : o.Served s)
    {m : Mode Lock CV} (h : Stops (program o.CLERKCOUNT) s s' t m) : AtCounter s' k i := by
  by_cases hline : (s.loc t).line k = some i
  · exact hd.clerk_stops hs hx h hline
  · by_cases htalk : ∃ q, (s.loc t).talk k i = some q
    · obtain ⟨q, hq⟩ := htalk
      exact hd.visitor_stops h hq
    · exact hd.stranger_stops hx h ⟨hline, fun q hq => htalk ⟨q, hq⟩⟩

/-! ### A process is given its lock -/

/-- Nobody leaves the counter while its lock is free and its clerk waits for it. -/
theorem AtCounter.none_leaving (hd : AtCounter s k i) (hs : o.Sound s) {c : Clerk}
    (hc : s.loc t = .clerk c) (hline : (s.loc t).line k = some i)
    (hpc : c.pc = .call .acquireClerk) (howner : s.owner (.clerkLock k i) = none)
    (hmode : s.mode t ≠ .running ∨ s.queue (.clerkLock k i) = []) (u : T) (q : Talk) :
    (s.loc u).talk k i ≠ some q := by
  intro hu
  have hfits := hd.fits t c u q hc hline hu
  unfold Fits at hfits
  rw [hpc] at hfits
  obtain ⟨hleaves, hrun⟩ := hfits
  have hnot : s.mode u ≠ .running := by
    intro hmu
    have hown := hs.visitor_owns hu hmu (by
      rw [hmu] at hleaves
      cases q <;> simp_all [Talk.leaves])
    cases hown.symm.trans howner
  rcases hmode with hm | hqueue
  · exact hnot (hrun hm)
  · have hqueued : s.mode u = .queued (.clerkLock k i) := by
      obtain ⟨-, hlock, -⟩ := hs.visitor_waits hu
      cases q with
      | wait => exact hleaves.2.2.1
      | waitPicture => exact hleaves.2.1
      | waitPassport => exact hleaves.1
      | getPicture | getPunishment | release _ => exact absurd (hs.reading hu (by simp)) hnot
      | _ => exact hleaves.elim
    have hmem := (hs.locked.queue _ u).mpr hqueued
    rw [hqueue] at hmem
    cases hmem

theorem AtCounter.clerk_granted (hd : AtCounter s k i) (hs : o.Sound s) (hx : o.Served s)
    {l : Lock} (h : Granted (program o.CLERKCOUNT) s s' t l)
    (hline : (s.loc t).line k = some i) : AtCounter s' k i := by
  obtain ⟨c, hc, hk, hi, -, -⟩ := hx.clerk_of hline
  have hother : ∀ u, u ≠ t → s'.loc u = s.loc u ∧ s'.mode u = s.mode u := fun u hu => by
    rw [h.loc, h.mode, Function.update_of_ne hu, Function.update_of_ne hu]
    exact ⟨rfl, rfl⟩
  have hself : s'.loc t = (s.loc t).next o.CLERKCOUNT 0 0 ∧ s'.mode t = .running := by
    rw [h.loc, h.mode, Function.update_self, Function.update_self]
    exact ⟨rfl, rfl⟩
  have hne : ∀ u q, (s.loc u).talk k i = some q → u ≠ t := by
    rintro u q hu rfl
    rw [Loc.line_of_talk hu] at hline
    cases hline
  have hreq : c.request = .Acquire l ∨ ∃ d, c.request = .Wait d l := by
    have hwhy := hs.locked.queued l t h.queued
    rw [hc] at hwhy
    exact hwhy
  -- a clerk that waits at its counter is given its own lock
  have hserving : ∀ p, c.pc = .serve p → l = .clerkLock k i := by
    intro p hp
    rcases hreq with hacq | ⟨d, hwait⟩
    · obtain ⟨k', myLine, money, fromLine, SSN, pc⟩ := c
      cases hp
      cases p <;> cases hacq
    · rcases Clerk.waits hwait with ⟨hpc, -⟩ | ⟨-, -, -, rfl⟩
      · cases hp.symm.trans hpc
      · rw [hk, hi]
  -- one that has called a customer finds nobody left
  have hnobody : c.pc = .call .acquireClerk → ∀ u q, (s.loc u).talk k i ≠ some q := by
    intro hpc
    refine hd.none_leaving hs hc hline hpc ?_ (.inl (by rw [h.queued]; simp))
    obtain rfl := Clerk.waits_own hpc hreq
    rw [← hk, ← hi]
    exact h.free
  have hc' : s'.loc t = .clerk (c.next o.CLERKCOUNT 0 0) := by
    rw [hself.1, hc]
    rfl
  refine hd.clerk_moved (hx.line_unique hline) hc hc' (by rw [hself.1]; exact Loc.line_kept hline)
    (fun u hu => (hother u hu).1) ?_ ?_ ?_ ?_
  · intro u q hu
    have hfits := hd.fits t c u q hc hline hu
    rw [h.queued] at hfits
    rw [hself.2, (hother u (hne u q hu)).2, h.val]
    refine hfits.clerk_granted hk hi hreq (fun hpc => hnobody hpc u q hu) (fun hl hfree => ?_) ?_
    · rw [h.owner, Function.update_of_ne fun heq => hl heq.symm]
      exact hfree
    · rintro rfl hq hnot
      cases hmode : s.mode u with
      | running =>
        have howner := hs.visitor_owns hu hmode (by rcases hq with rfl | rfl | rfl <;> simp)
        cases howner.symm.trans h.free
      | queued l => exact absurd hmode (by rw [(hs.visitor_waits hu).2.1 l hmode]; exact hnot)
      | asleep d => rw [(hs.visitor_waits hu).1 d hmode]
  · intro hsig
    rw [h.val] at hsig
    obtain ⟨v, d, hd', hline', hcalled⟩ := hd.signaled hsig
    obtain rfl := hx.line_unique hline v hline'
    cases hc.symm.trans hd'
    rcases hcalled with hpc | hpc | ⟨hpc, hnot⟩
    · obtain ⟨k', myLine, money, fromLine, SSN, pc⟩ := c
      cases hpc
      exact .inr (.inl rfl)
    · obtain ⟨k', myLine, money, fromLine, SSN, pc⟩ := c
      cases hpc
      rcases hreq with hreq | ⟨d, hreq⟩ <;> cases hreq
    · refine absurd h.queued ?_
      rw [hserving _ hpc, ← hk, ← hi]
      exact hnot
  · intro hsig u q hu
    rw [h.val] at hsig
    rcases hd.alone hsig u q hu with hq | ⟨v, d, hd', hline', hpc⟩
    · exact .inl hq
    · obtain rfl := hx.line_unique hline v hline'
      cases hc.symm.trans hd'
      exact absurd hu (hnobody hpc u q)
  · intro hengaged
    rw [hself.2] at hengaged
    refine hd.engaged t c hc hline (Clerk.engaged_next hengaged fun hpc => ?_)
    rw [h.queued, hserving _ hpc, hk, hi]

theorem AtCounter.visitor_granted (hd : AtCounter s k i) (hs : o.Sound s) (hx : o.Served s)
    {l : Lock} (h : Granted (program o.CLERKCOUNT) s s' t l)
    (ht : (s.loc t).talk k i = some q) : AtCounter s' k i := by
  have hother : ∀ u, u ≠ t → s'.loc u = s.loc u ∧ s'.mode u = s.mode u := fun u hu => by
    rw [h.loc, h.mode, Function.update_of_ne hu, Function.update_of_ne hu]
    exact ⟨rfl, rfl⟩
  have hself : s'.loc t = (s.loc t).next o.CLERKCOUNT 0 0 ∧ s'.mode t = .running := by
    rw [h.loc, h.mode, Function.update_self, Function.update_self]
    exact ⟨rfl, rfl⟩
  have hclerk : ∀ v, (s.loc v).line k = some i → v ≠ t := by
    rintro v hv rfl
    rw [Loc.line_of_talk ht] at hv
    cases hv
  obtain ⟨-, hlock, hqs⟩ := hs.visitor_waits ht
  obtain rfl := hlock l h.queued
  have hq := hqs (by rw [h.queued]; simp)
  obtain ⟨bribe, hv⟩ := Loc.talk_iff.mp ht
  obtain ⟨q', hq'⟩ := Visit.talk_goes o.CLERKCOUNT k bribe i 0 0
    (q := q) (by rintro done rfl; simp at hq)
  have hv' : (s'.loc t).visit = some ⟨k, bribe, .talk i q'⟩ := by
    rw [hself.1]
    exact Loc.visit_goes hv hq'
  have htalk' : (s'.loc t).talk k i = some q' := Loc.talk_iff.mpr ⟨bribe, hv'⟩
  have hSSN : (s'.loc t).SSN = (s.loc t).SSN := by
    rw [hself.1]
    refine Loc.SSN_next _ _ _ _ fun j w hset => ?_
    rcases hs.locked.queued _ t h.queued with hreq | ⟨c, hreq⟩ <;> cases hreq.symm.trans hset
  refine hd.visitor_moved ht ?_ (fun u hu => (hother u hu).1) ?_ ?_ ?_ ?_ ?_
  · rw [Loc.line_of_talk htalk']
    rintro ⟨⟩
  · intro v c q'' hc hline hq''
    cases htalk'.symm.trans hq''
    obtain ⟨c', hc', hk, hi, -, hof⟩ := hx.clerk_of hline
    cases hc.symm.trans hc'
    have hfits := hd.fits v c t q hc hline ht
    rw [h.queued] at hfits
    rw [hSSN, (hother v (hclerk v hline)).2, hself.2, h.val]
    refine hfits.visitor_granted hk hi hof hq hq' (fun hheld hrun => ?_) fun hpc => ?_
    · have howner := hs.locked.owner_of_held (t := v) hrun (by rw [hc]; exact hheld)
      cases howner.symm.trans h.free
    · refine hs.locked.running (fun l hl => ?_) fun d l hl => ?_
      · rw [hc] at hl
        obtain ⟨k', myLine, money, fromLine, SSN, pc⟩ := c
        rcases hpc with hpc | hpc <;> cases hpc <;> cases hl
      · rw [hc] at hl
        obtain ⟨k', myLine, money, fromLine, SSN, pc⟩ := c
        rcases hpc with hpc | hpc <;> cases hpc <;> cases hl
  · rw [h.val]
    exact id
  · intro _ v c _ hline hcalled
    rw [(hother v (hclerk v hline)).2]
    exact hcalled
  · rintro _ q'' _ rfl
    simp at hq
  · exact fun v c _ _ _ => ⟨q', htalk'⟩

/-- A stranger that waits stays one. -/
theorem Office.Served.stranger_waits (hx : o.Served s) (ht : (s.loc t).Stranger k i) {l : Lock}
    {a : Int} {r : Nat}
    (hreq : (s.loc t).request = .Acquire l ∨ ∃ c, (s.loc t).request = .Wait c l) :
    ((s.loc t).next o.CLERKCOUNT a r).Stranger k i := by
  have hset : ∀ x j v, (s.loc t).request ≠ .Set x j v := by
    intro x j v hset
    rcases hreq with hreq | ⟨c, hreq⟩ <;> cases hreq.symm.trans hset
  refine ⟨?_, fun q hq => ?_⟩
  · have hline : ((s.loc t).next o.CLERKCOUNT a r).line k = (s.loc t).line k :=
      (draws_line o.CLERKCOUNT k).other _ _ _ (hset _)
    rw [hline]
    exact ht.1
  · rcases Loc.talk_next hq with ⟨bribe, q₀, hv, -⟩ | ⟨-, bribe, hv, -⟩ | ⟨-, bribe, hv, -⟩ |
      ⟨bribe, hv⟩
    · exact ht.2 q₀ (Loc.talk_iff.mpr ⟨bribe, hv⟩)
    · obtain ⟨number, -, hr, -⟩ := Loc.visit_SSN hv
      rcases hreq with hreq | ⟨c, hreq⟩ <;> cases hr.symm.trans hreq
    · obtain ⟨number, -, hr, -⟩ := Loc.visit_SSN hv
      rcases hreq with hreq | ⟨c, hreq⟩ <;> cases hr.symm.trans hreq
    · exact hx.locked t _ _ _ _ hv

theorem AtCounter.stranger_granted (hd : AtCounter s k i) (hs : o.Sound s) (hx : o.Served s)
    {l : Lock} (h : Granted (program o.CLERKCOUNT) s s' t l) (ht : (s.loc t).Stranger k i) :
    AtCounter s' k i := by
  have hreq := hs.locked.queued l t h.queued
  have hmode : ∀ u, u ≠ t → s'.mode u = s.mode u := fun u hu => by
    rw [h.mode, Function.update_of_ne hu]
  refine hd.frame hx.proper ht ?_ (fun u hu => by rw [h.loc, Function.update_of_ne hu]) ?_ ?_
    (by rw [h.val]) (by rw [h.val]) (fun _ => by rw [h.val]) ?_
  · rw [h.loc, Function.update_self]
    exact hx.stranger_waits ht hreq
  · intro u q hu
    refine hmode u ?_
    rintro rfl
    exact ht.2 q hu
  · intro u c _ hline
    refine .inl (hmode u ?_)
    rintro rfl
    exact ht.1 hline
  · rw [h.owner, Function.update_of_ne]
    rintro rfl
    refine hx.stranger ht ?_
    rcases hreq with hreq | ⟨c, hreq⟩
    · rw [show (s.loc t).request = _ from hreq]
      rfl
    · rw [show (s.loc t).request = _ from hreq]
      rfl

/-- **A process that is given its lock** fits as it goes on. -/
theorem AtCounter.granted (hd : AtCounter s k i) (hs : o.Sound s) (hx : o.Served s) {l : Lock}
    (h : Granted (program o.CLERKCOUNT) s s' t l) : AtCounter s' k i := by
  by_cases hline : (s.loc t).line k = some i
  · exact hd.clerk_granted hs hx h hline
  · by_cases htalk : ∃ q, (s.loc t).talk k i = some q
    · obtain ⟨q, hq⟩ := htalk
      exact hd.visitor_granted hs hx h hq
    · exact hd.stranger_granted hs hx h ⟨hline, fun q hq => htalk ⟨q, hq⟩⟩

/-! ### A process goes on -/

/-- Who visits a cashier has its passport. -/
theorem Office.Served.certified (hx : o.Served s) {n : Int}
    (hu : (s.loc u).talk .cashier i = some q) (hn : (s.loc u).SSN = some n) :
    Certified s.val n := by
  obtain ⟨bribe, hv⟩ := Loc.talk_iff.mp hu
  have hproper := hx.proper u
  rcases Loc.visit_cases hv with ⟨me, past, hp⟩ | ⟨me, hp⟩
  · rw [hp] at hproper
    exact hx.issued u me n (by rw [hp]; rfl) hn (.inl (hproper.2.1 rfl))
  · rw [hp] at hproper
    exact hx.issued u me n (by rw [hp]; rfl) hn (.inl (hproper.1 rfl))

theorem AtCounter.clerk_goes (hd : AtCounter s k i) (hs : o.Sound s) (hx : o.Served s)
    (hrange : 0 ≤ i ∧ i < MAXCLERKS) {r : Nat} (h : Goes (program o.CLERKCOUNT) s s' t r)
    (hline : (s.loc t).line k = some i) : AtCounter s' k i := by
  obtain ⟨c, hc, hk, hi, -, hof⟩ := hx.clerk_of hline
  have hreq : (program o.CLERKCOUNT).request (s.loc t) = c.request := by
    rw [hc]
    rfl
  have hself : s'.loc t = .clerk (c.next o.CLERKCOUNT
      (answered o.CLERKCOUNT c.request s.val).1 r) := by
    rw [h.loc, Function.update_self, hreq, hc]
    rfl
  have hval : s'.val = (answered o.CLERKCOUNT c.request s.val).2 := by
    rw [h.val, hreq]
  have hother : ∀ u, u ≠ t → s'.loc u = s.loc u := fun u hu => by
    rw [h.loc, Function.update_of_ne hu]
  have hne : ∀ u q, (s.loc u).talk k i = some q → u ≠ t := by
    rintro u q hu rfl
    rw [Loc.line_of_talk hu] at hline
    cases hline
  -- it runs on, and nobody wakes it
  have hrun : s'.mode t = .running := by
    rw [h.mode t fun d hd' => ?_]
    · exact h.running
    · cases h.running.symm.trans hd'
  -- one that takes its own lock finds nobody left
  have hnobody : c.pc = .call .acquireClerk → ∀ u q, (s.loc u).talk k i ≠ some q := by
    intro hpc
    have hacq : c.request = .Acquire (.clerkLock k i) := by
      obtain ⟨k', myLine, money, fromLine, SSN, pc⟩ := c
      cases hpc
      obtain rfl : k' = k := hk
      obtain rfl : myLine = i := hi
      exact acquireClerkLock_of hrange
    obtain ⟨howner, hqueue, -⟩ := h.acquires _ (hreq.trans hacq)
    exact hd.none_leaving hs hc hline hpc howner (.inr hqueue)
  -- the call that it has made was made before, or it is this one
  have hcalls : Signaled s'.val k i → Signaled s.val k i ∨ c.pc = .call .setSignaled := by
    intro hsig
    unfold Signaled at hsig ⊢
    rw [hval] at hsig
    rcases get_answered_cases o.CLERKCOUNT c.request (.clerkState k) s.val i with
      hsame | ⟨v, hset, hv⟩
    · exact .inl (hsame ▸ hsig)
    · rw [hv] at hsig
      rw [hsig] at hset
      exact .inr (Clerk.sets_signaled hset)
  refine hd.clerk_moved (hx.line_unique hline) hc hself ?_ hother ?_ ?_ ?_ ?_
  · rw [h.loc, Function.update_self]
    exact Loc.line_kept hline
  · intro u q hu
    have hfits := hd.fits t c u q hc hline hu
    rw [h.running] at hfits
    rw [hrun, hval]
    have hwaits := (hs.visitor_waits hu).1
    refine hfits.clerk_goes hk hi hof hrange (fun hpc => hnobody hpc u q hu) ?_ ?_ ?_ ?_ ?_ ?_
    · intro hrel
      have howner := hs.locked.owner_of_held h.running (m := .clerkLock k i) (by
        rw [hc]
        exact Clerk.releases hrel)
      rw [h.releases _ (hreq.trans hrel) howner, Function.update_self]
    · refine fun _ hfree => h.owner_free (fun hacq => ?_) hfree
      exact hnobody (Clerk.acquires (hreq.symm.trans hacq)) u q hu
    · intro hsig hasleep
      have hin := c.inOrder
      rw [hsig] at hin
      refine hs.signal_wakes h (hreq.trans hsig) (hs.locked.owner_of_held h.running ?_) hasleep ?_
      · rw [hc]
        exact hin.2
      · intro v hv
        rcases hx.sleeper hs hv with hv' | ⟨q', hq'⟩
        · obtain rfl := hx.line_unique hline v hv'
          cases h.running.symm.trans hv
        · exact hd.one v u q' q hq' hu
    · intro hnot
      refine h.mode u fun d hd' l => ⟨fun hsig => ?_, fun hb => ?_⟩
      · obtain rfl := hwaits d hd'
        have hin := c.inOrder
        rw [← hreq, hsig] at hin
        cases hin.1
        exact hnot (hreq.symm.trans hsig)
      · exact c.not_broadcasts d l (hreq.symm.trans hb)
    · exact fun d l hwait => h.awake d l (hreq.trans hwait)
    · intro hpc
      have hcashier : k = .cashier := of_decide_eq_true (hof _ hpc)
      subst hcashier
      obtain ⟨k', myLine, money, fromLine, SSN, pc⟩ := c
      cases hpc
      exact hx.certified hu hfits.2.2
  · intro hsig
    rw [hrun]
    rcases hcalls hsig with hwas | hpc
    · obtain ⟨v, d, hd', hline', hcalled⟩ := hd.signaled hwas
      obtain rfl := hx.line_unique hline v hline'
      cases hc.symm.trans hd'
      obtain ⟨k', myLine, money, fromLine, SSN, pc⟩ := c
      rcases hcalled with hpc | hpc | ⟨hpc, -⟩
      · cases hpc
        exact .inr (.inl rfl)
      · cases hpc
        exact .inr (.inr ⟨rfl, by simp⟩)
      · cases hpc
        exact absurd hreq (h.awake _ _)
    · obtain ⟨k', myLine, money, fromLine, SSN, pc⟩ := c
      cases hpc
      exact .inl rfl
  · intro hsig u q hu
    rcases hcalls hsig with hwas | hpc
    · rcases hd.alone hwas u q hu with hq | ⟨v, d, hd', hline', hpc⟩
      · exact .inl hq
      · obtain rfl := hx.line_unique hline v hline'
        cases hc.symm.trans hd'
        exact absurd hu (hnobody hpc u q)
    · obtain ⟨k', myLine, money, fromLine, SSN, pc⟩ := c
      cases hpc
      exact .inr rfl
  · intro hengaged
    rw [hrun] at hengaged
    refine hd.engaged t c hc hline (Clerk.engaged_next hengaged fun hpc => ?_)
    obtain ⟨k', myLine, money, fromLine, SSN, pc⟩ := c
    cases hpc
    exact absurd hreq (h.awake _ _)

/-- Who releases the clerk's lock is at the counter no more. -/
theorem Loc.talk_released {p : Loc} {k k' : Kind} {i j : Int} {bribe done : Bool} {n : Nat}
    {a : Int} {r : Nat} (h : p.visit = some ⟨k, bribe, .talk i (.release done)⟩) (q : Talk) :
    (p.next n a r).talk k' j ≠ some q ∧ (p.next n a r).line k' = none := by
  rcases visit_cases h with ⟨me, past, rfl⟩ | ⟨me, rfl⟩
  · exact ⟨by rintro ⟨⟩, rfl⟩
  · refine ⟨fun hq => ?_, rfl⟩
    obtain ⟨bribe', hv⟩ := talk_iff.mp hq
    cases Senator.visit_choose (c := ⟨me.setDone k done, .visit ⟨k, bribe, .talk i (.release done)⟩⟩)
      (r := r) hv

theorem AtCounter.visitor_leaves (hd : AtCounter s k i) {r : Nat}
    (h : Goes (program o.CLERKCOUNT) s s' t r) {done : Bool}
    (ht : (s.loc t).talk k i = some (.release done)) : AtCounter s' k i := by
  obtain ⟨bribe, hv⟩ := Loc.talk_iff.mp ht
  obtain ⟨number, -, hreq, -⟩ := Loc.visit_SSN hv
  have hrelease : (program o.CLERKCOUNT).request (s.loc t) = .Release (.clerkLock k i) := hreq
  have hself : ∀ q, (s'.loc t).talk k i ≠ some q ∧ (s'.loc t).line k = none := fun q => by
    rw [h.loc, Function.update_self]
    exact Loc.talk_released hv q
  have hmode : ∀ u, s'.mode u = s.mode u := fun u =>
    h.mode u fun d _ l => by rw [hrelease]; exact ⟨by rintro ⟨⟩, by rintro ⟨⟩⟩
  have hval : s'.val = s.val := by
    rw [h.val, hrelease]
    rfl
  refine hd.visitor_moved ht (by rw [(hself .wait).2]; rintro ⟨⟩)
    (fun u hu => by rw [h.loc, Function.update_of_ne hu]) ?_ ?_ ?_ ?_ ?_
  · exact fun v c q' _ _ hq' => absurd hq' (hself q').1
  · rw [hval]
    exact id
  · intro _ v c _ _ hcalled
    rw [hmode]
    exact hcalled
  · exact fun _ q' hq' _ => absurd hq' (hself q').1
  · -- its clerk has left before
    rintro v c hc hline ⟨p, hpc, hnot, -⟩
    have hfits := hd.fits v c t _ hc hline ht
    rw [h.running] at hfits
    rcases hfits.leaving (.inr (.inr ⟨done, rfl⟩)) with ⟨haway | hcall, -⟩ | ⟨-, -, hq, -⟩
    · rw [hpc] at haway
      exact absurd (of_decide_eq_true haway) hnot
    · cases hpc.symm.trans hcall
    · cases hq

theorem AtCounter.visitor_goes (hd : AtCounter s k i) (hs : o.Sound s) (hx : o.Served s)
    (hrange : 0 ≤ i ∧ i < MAXCLERKS) {r : Nat} (h : Goes (program o.CLERKCOUNT) s s' t r)
    (ht : (s.loc t).talk k i = some q) (hq : ∀ done, q ≠ .release done) : AtCounter s' k i := by
  obtain ⟨bribe, hv⟩ := Loc.talk_iff.mp ht
  obtain ⟨number, hnumber, hreq, hheld⟩ := Loc.visit_SSN hv
  have hreq' : (program o.CLERKCOUNT).request (s.loc t) =
    (Visit.mk k bribe (.talk i q)).request number := hreq
  have hval : s'.val = (answered o.CLERKCOUNT
      ((Visit.mk k bribe (.talk i q)).request number) s.val).2 := by
    rw [h.val, hreq']
  obtain ⟨q', hnext⟩ := Visit.talk_goes o.CLERKCOUNT k bribe i
    (answered o.CLERKCOUNT ((Visit.mk k bribe (.talk i q)).request number) s.val).1 r hq
  have hself : s'.loc t = (s.loc t).next o.CLERKCOUNT
      (answered o.CLERKCOUNT ((Visit.mk k bribe (.talk i q)).request number) s.val).1 r := by
    rw [h.loc, Function.update_self, hreq']
    rfl
  have htalk' : (s'.loc t).talk k i = some q' := by
    refine Loc.talk_iff.mpr ⟨bribe, ?_⟩
    rw [hself]
    exact Loc.visit_goes hv hnext
  have hSSN : (s'.loc t).SSN = (s.loc t).SSN := by
    rw [hself]
    refine Loc.SSN_next _ _ _ _ fun j w hset => ?_
    rcases (Visit.mk k bribe (.talk i q)).writtenBy (hreq.symm.trans hset) with
      ⟨k', hx | hx | hx | hx⟩ | hx <;> cases hx
  have hrun : s'.mode t = .running := by
    rw [h.mode t fun d hd' => ?_]
    · exact h.running
    · cases h.running.symm.trans hd'
  have hsignals : (q = .signal ∨ q = .signalPicture ∨ q = .signalMoney) →
      (s.loc t).request = .Signal (.clerkCV k i) (.clerkLock k i) := fun hsig =>
    hreq.trans (Visit.talk_signals.mpr hsig)
  have hwakes : ∀ v, ¬ (q = .signal ∨ q = .signalPicture ∨ q = .signalMoney) →
      s'.mode v = s.mode v := fun v hnot =>
    h.mode v fun d _ l => ⟨fun hsig => hnot (Visit.talk_wakes (.inl (hreq'.symm.trans hsig))),
      fun hb => hnot (Visit.talk_wakes (.inr (hreq'.symm.trans hb)))⟩
  have hsame : Signaled s'.val k i → Signaled s.val k i ∧ q ≠ .setBusy := by
    intro hsig
    unfold Signaled at hsig ⊢
    rw [hval] at hsig
    rcases get_answered_cases o.CLERKCOUNT ((Visit.mk k bribe (.talk i q)).request number)
      (.clerkState k) s.val i with hsame | ⟨v, hset, hw⟩
    · refine ⟨hsame ▸ hsig, ?_⟩
      rintro rfl
      have hbusy : MV.get (answered o.CLERKCOUNT (.Set (.clerkState k) i BUSY) s.val).2
          (.clerkState k) i = BUSY := get_set_self _ hrange
      cases hbusy.symm.trans hsig
    · rw [hw, Visit.talk_sets hset] at hsig
      cases hsig
  refine hd.visitor_moved ht ?_ (fun u hu => by rw [h.loc, Function.update_of_ne hu]) ?_
    (fun hsig => (hsame hsig).1) ?_ ?_ ?_
  · rw [Loc.line_of_talk htalk']
    rintro ⟨⟩
  · intro v c q'' hc hline hq''
    cases htalk'.symm.trans hq''
    have hfits := hd.fits v c t q hc hline ht
    rw [h.running, hnumber] at hfits
    rw [hSSN, hnumber, hrun, hval]
    refine hfits.visitor_goes hrange hnext ?_ ?_ ?_ (hwakes v) ?_
    · refine ⟨?_, ?_, ?_⟩ <;>
      · rintro rfl
        exact h.awake _ _ hreq'
    · -- the clerk would hold the lock
      rintro rfl hmode
      have hacq : (program o.CLERKCOUNT).request (s.loc t) = .Acquire (.clerkLock k i) :=
        hreq'.trans (acquireClerkLock_of hrange)
      obtain ⟨hpc, -⟩ := hfits.arriving (.inr (.inr (.inl rfl)))
      obtain ⟨c', hc', hk, hi, -, -⟩ := hx.clerk_of hline
      cases hc.symm.trans hc'
      have howner := hs.locked.owner_of_held hmode (m := .clerkLock k i) (by
        rw [hc]
        obtain ⟨k', myLine, money, fromLine, SSN, pc⟩ := c
        cases hpc
        obtain rfl : k' = k := hk
        obtain rfl : myLine = i := hi
        rfl)
      cases howner.symm.trans (h.acquires _ hacq).1
    · intro hsig hasleep
      refine hs.signal_wakes h (hsignals hsig) ?_ hasleep fun w hw => ?_
      · refine hs.visitor_owns ht h.running ?_
        rcases hsig with rfl | rfl | rfl <;> simp
      · rcases hx.sleeper hs hw with hw' | ⟨q₀, hq₀⟩
        · exact hx.line_unique hline w hw'
        · obtain rfl := hd.one w t q₀ q hq₀ ht
          cases h.running.symm.trans hw
    · rintro rfl
      have hzero : (answered o.CLERKCOUNT (.Get .cashierRejection number) s.val).1 = 0 :=
        hx.rejections number
      show (answered o.CLERKCOUNT (.Get .cashierRejection number) s.val).1 ≠ 1
      rw [hzero]
      decide
  · intro hsig v c hc hline hcalled
    by_cases hnot : q = .signal ∨ q = .signalPicture ∨ q = .signalMoney
    · rcases hd.alone (hsame hsig).1 t q ht with rfl | ⟨w, c', hc', hline', hpc⟩
      · rcases hnot with hnot | hnot | hnot <;> cases hnot
      · obtain rfl := hx.line_unique hline w hline'
        cases hc.symm.trans hc'
        exact .inl hpc
    · rw [hwakes v hnot]
      exact hcalled
  · exact fun hsig _ _ hset => absurd hset (hsame hsig).2
  · exact fun v c _ _ _ => ⟨q', htalk'⟩

theorem AtCounter.stranger_goes (hd : AtCounter s k i) (hs : o.Sound s) (hx : o.Served s) {r : Nat}
    (h : Goes (program o.CLERKCOUNT) s s' t r) (ht : (s.loc t).Stranger k i)
    (ht' : (s'.loc t).Stranger k i) : AtCounter s' k i := by
  have hnot : ∀ {q}, (s.loc t).request = q → ¬ Concerns k i q := by
    rintro _ rfl
    exact hx.stranger ht
  have hval : s'.val = (answered o.CLERKCOUNT (s.loc t).request s.val).2 := h.val
  have hsleeper : ∀ u, s.mode u = .asleep (.clerkCV k i) → s'.mode u = s.mode u := by
    intro u hu
    refine h.mode u fun d hd' l => ?_
    cases hu.symm.trans hd'
    exact ⟨fun hsig => hnot hsig rfl, fun hb => hnot hb rfl⟩
  have hawake : ∀ u, (∀ d, s.mode u ≠ .asleep d) → s'.mode u = s.mode u := fun u hu =>
    h.mode u fun d hd' => absurd hd' (hu d)
  refine hd.frame hx.proper ht ht' (fun u hu => by rw [h.loc, Function.update_of_ne hu])
    ?_ ?_ ?_ ?_ ?_ ?_
  · intro u q hu
    by_cases hasleep : ∃ d, s.mode u = .asleep d
    · obtain ⟨d, hd'⟩ := hasleep
      obtain rfl := (hs.visitor_waits hu).1 d hd'
      exact hsleeper u hd'
    · exact hawake u fun d hd' => hasleep ⟨d, hd'⟩
  · intro u c hc hline
    by_cases hasleep : ∃ d, s.mode u = .asleep d
    · obtain ⟨d, hd'⟩ := hasleep
      obtain ⟨c', hc', hk, hi, -, -⟩ := hx.clerk_of hline
      cases hc.symm.trans hc'
      have hwait := hs.locked.asleep d u hd'
      rw [show (program o.CLERKCOUNT).request (s.loc u) = c.request by rw [hc]; rfl] at hwait
      rcases Clerk.waits hwait with ⟨hpc, -⟩ | ⟨-, -, rfl, -⟩
      · exact .inr hpc
      · refine .inl (hsleeper u ?_)
        rw [hd', hk, hi]
    · exact .inl (hawake u fun d hd' => hasleep ⟨d, hd'⟩)
  · rw [hval]
    rcases get_answered_cases o.CLERKCOUNT (s.loc t).request (.clerkState k) s.val i with
      hsame | ⟨v, hset, -⟩
    · exact hsame
    · exact absurd ⟨.inl rfl, rfl⟩ (hnot hset)
  · rw [hval]
    rcases get_answered_cases o.CLERKCOUNT (s.loc t).request (.sharedDataSSN k) s.val i with
      hsame | ⟨v, hset, -⟩
    · exact hsame
    · exact absurd ⟨.inr (.inl rfl), rfl⟩ (hnot hset)
  · intro hk
    rw [hval]
    rcases get_answered_cases o.CLERKCOUNT (s.loc t).request .sharedDataPicture s.val i with
      hsame | ⟨v, hset, -⟩
    · exact hsame
    · exact absurd ⟨.inr (.inr ⟨rfl, hk⟩), rfl⟩ (hnot hset)
  · exact h.owner_kept (fun hacq => hnot hacq rfl) fun hrel => hnot hrel rfl

/-- **A clerk comes to a counter of its own**: nobody was there. -/
theorem AtCounter.clerk_comes (hd : AtCounter s k i) (hs : o.Sound s) {r : Nat}
    (h : Goes (program o.CLERKCOUNT) s s' t r) (hlines : Drawn (.myLine k) (Loc.line k) s')
    (ht : (s.loc t).line k ≠ some i) (ht' : (s'.loc t).line k = some i) : AtCounter s' k i := by
  have hself : s'.loc t = (s.loc t).next o.CLERKCOUNT
      (answered o.CLERKCOUNT (s.loc t).request s.val).1 r := by
    rw [h.loc, Function.update_self]
    rfl
  have hother : ∀ u, u ≠ t → s'.loc u = s.loc u := fun u hu => by
    rw [h.loc, Function.update_of_ne hu]
  have hset : ∃ j v, (s.loc t).request = .Set (.myLine k) j v := by
    by_contra hnot
    rw [hself] at ht'
    have hkept : ((s.loc t).next o.CLERKCOUNT
        (answered o.CLERKCOUNT (s.loc t).request s.val).1 r).line k = (s.loc t).line k :=
      (draws_line o.CLERKCOUNT k).other _ _ _ fun j v hset => hnot ⟨j, v, hset⟩
    exact ht (hkept.symm.trans ht')
  obtain ⟨j, v, hset⟩ := hset
  have hnone : ∀ u, (s.loc u).line k ≠ some i := by
    intro u hu
    by_cases hut : u = t
    · exact ht (hut ▸ hu)
    · rw [← hother u hut] at hu
      exact hut (hlines.unique u t i hu ht')
  have hnobody : ∀ u q, (s'.loc u).talk k i ≠ some q := by
    intro u q hu
    by_cases hut : u = t
    · subst hut
      rw [Loc.line_of_talk hu] at ht'
      cases ht'
    · rw [hother u hut] at hu
      obtain ⟨v, hv⟩ := hd.attended u q hu
      exact hnone v hv
  refine ⟨fun u _ q _ hu => absurd hu (hnobody u q), fun u q hu => absurd hu (hnobody u q),
    fun _ _ u q _ _ hu => absurd hu (hnobody u q), fun hsig => ?_,
    fun _ u q hu => absurd hu (hnobody u q), fun u c hc hline hengaged => ?_⟩
  · have hsame : MV.get s'.val (.clerkState k) i = MV.get s.val (.clerkState k) i := by
      rw [h.val, show (program o.CLERKCOUNT).request (s.loc t) = _ from hset]
      exact get_set_of_ne _ (by simp)
    unfold Signaled at hsig
    rw [hsame] at hsig
    obtain ⟨u, c, -, hline, -⟩ := hd.signaled hsig
    exact absurd hline (hnone u)
  · -- it has just drawn its line
    have hut : u = t := by
      by_contra hut
      rw [hother u hut] at hline
      exact hnone u hline
    subst hut
    have hfresh := ((draws_line o.CLERKCOUNT k).write (s.loc u) j v s.val r hset
      (hs.claim fun c l hwait => by cases hset.symm.trans hwait)).2.2.1
    rw [hself] at hc
    cases hp : s.loc u with
    | clerk d =>
      rw [hp] at hc hfresh
      cases hc
      have hrun : s'.mode u = .running := (h.mode u fun e he => by
        cases h.running.symm.trans he).trans h.running
      rw [hrun] at hengaged
      obtain ⟨p, hpc, -⟩ := Clerk.engaged_next hengaged fun _ => rfl
      have hkind : d.kind = k := by
        obtain ⟨c', hc', hk, -⟩ := Loc.line_clerk ht'
        rw [hself, hp] at hc'
        cases hc'
        exact (d.next_kind _ _ _).symm.trans hk
      have hline' : (if d.kind = k then d.line else none) = none := hfresh
      rw [if_pos hkind, Clerk.line, hpc] at hline'
      cases hline'
    | _ =>
      rw [hp] at hc
      cases hc

/-- **A visitor comes to a counter** by the ticket of its clerk, which waits for it there. -/
theorem AtCounter.visitor_comes (hd : AtCounter s k i) (hs : o.Sound s) (hx : o.Served s)
    (hrange : 0 ≤ i ∧ i < MAXCLERKS) {r : Nat} (h : Goes (program o.CLERKCOUNT) s s' t r)
    (ht : (s.loc t).Stranger k i) {q' : Talk} (ht' : (s'.loc t).talk k i = some q') :
    AtCounter s' k i := by
  have hself : s'.loc t = (s.loc t).next o.CLERKCOUNT
      (answered o.CLERKCOUNT (s.loc t).request s.val).1 r := by
    rw [h.loc, Function.update_self]
    rfl
  have hother : ∀ u, u ≠ t → s'.loc u = s.loc u := fun u hu => by
    rw [h.loc, Function.update_of_ne hu]
  -- it has found itself called
  obtain ⟨rfl, bribe, hv, ha⟩ : q' = .setBusy ∧
      ∃ bribe, (s.loc t).visit = some ⟨k, bribe, .line (.look i)⟩ ∧
        (answered o.CLERKCOUNT (s.loc t).request s.val).1 = SIGNALEDCUSTOMER := by
    have htalk := ht'
    rw [hself] at htalk
    rcases Loc.talk_next htalk with ⟨bribe, q, hv, -⟩ | hlook | ⟨-, bribe, hv, ha⟩ | ⟨bribe, hv⟩
    · exact absurd (Loc.talk_iff.mpr ⟨bribe, hv⟩) (ht.2 q)
    · exact hlook
    · obtain ⟨number, -, hreq, -⟩ := Loc.visit_SSN hv
      rw [hreq] at ha
      exact absurd ha (hx.states k i hrange)
    · exact absurd hv (hx.locked t k bribe i _)
  obtain ⟨number, -, hreq, hheld⟩ := Loc.visit_SSN hv
  have hreq' : (program o.CLERKCOUNT).request (s.loc t) = .Get (.clerkState k) i := hreq
  have hval : s'.val = s.val := by
    rw [h.val, hreq']
    rfl
  have hmode : ∀ u, s'.mode u = s.mode u := fun u =>
    h.mode u fun d _ l => by rw [hreq']; exact ⟨by rintro ⟨⟩, by rintro ⟨⟩⟩
  have hsig : Signaled s.val k i := by
    rw [hreq] at ha
    exact ha
  have hinline : (s.loc t).held (.lineLock k) := by
    rw [hheld]
    exact ⟨by rintro ⟨⟩, rfl⟩
  -- who holds the line lock besides it would be it
  have halone : ∀ u, (s.loc u).held (.lineLock k) →
      (∀ d, (s.loc u).request ≠ .Wait d (.lineLock k)) → u = t := fun u hu hwait =>
    hs.alone hu hinline (.inr hwait) (.inl h.running)
  have hcall : ∀ u c, s.loc u = .clerk c → (s.loc u).line k = some i →
      c.pc ≠ .call .acquireClerk ∧ c.pc ≠ .call .releaseLine := by
    intro u c hc hline
    obtain ⟨c', hc', hk, hi, -, -⟩ := hx.clerk_of hline
    cases hc.symm.trans hc'
    have hut : u ≠ t := by
      rintro rfl
      exact ht.1 hline
    obtain ⟨k', myLine, money, fromLine, SSN, pc⟩ := c
    obtain rfl : k' = k := hk
    obtain rfl : myLine = i := hi
    refine ⟨?_, ?_⟩
    · rintro rfl
      refine hut (halone u (by rw [hc]; rfl) fun d hwait => ?_)
      rw [hc] at hwait
      have hlock : acquireClerkLock k' myLine = .Wait d (.lineLock k') := hwait
      rw [acquireClerkLock_of hrange] at hlock
      cases hlock
    · rintro rfl
      refine hut (halone u (by rw [hc]; exact .inl rfl) fun d hwait => ?_)
      rw [hc] at hwait
      cases hwait
  have hnobody : ∀ u q, (s.loc u).talk k i ≠ some q := by
    intro u q hu
    rcases hd.alone hsig u q hu with rfl | ⟨v, c, hc, hline, hpc⟩
    · obtain ⟨bribe', hv'⟩ := Loc.talk_iff.mp hu
      obtain ⟨number', -, hreq₂, hheld'⟩ := Loc.visit_SSN hv'
      have hut := halone u (by rw [hheld']; rfl) fun d hwait => by cases hreq₂.symm.trans hwait
      subst hut
      exact ht.2 _ hu
    · exact (hcall v c hc hline).1 hpc
  obtain ⟨v, c, hc, hline, hcalled⟩ := hd.signaled hsig
  obtain ⟨c', hc', hk, hi, -, -⟩ := hx.clerk_of hline
  cases hc.symm.trans hc'
  have hvt : v ≠ t := by
    rintro rfl
    exact ht.1 hline
  -- its clerk waits, or is about to
  obtain ⟨hpc, hnot⟩ : c.pc = .serve .wait ∧ s.mode v ≠ .queued (.clerkLock k i) := by
    rcases hcalled with hpc | hpc | ⟨hpc, hnot⟩
    · exact absurd hpc (hcall v c hc hline).1
    · exact absurd hpc (hcall v c hc hline).2
    · rw [hk, hi] at hnot
      exact ⟨hpc, hnot⟩
  have hwaits : s.mode v = .running ∨ s.mode v = .asleep (.clerkCV k i) := by
    have hwait : (program o.CLERKCOUNT).request (s.loc v) = .Wait (.clerkCV k i) (.clerkLock k i) := by
      rw [hc]
      obtain ⟨k', myLine, money, fromLine, SSN, pc⟩ := c
      cases hpc
      obtain rfl : k' = k := hk
      obtain rfl : myLine = i := hi
      rfl
    cases hmode : s.mode v with
    | running => exact .inl rfl
    | queued l =>
      rcases hs.locked.queued l v hmode with hl | ⟨d, hl⟩
      · cases hwait.symm.trans hl
      · cases hwait.symm.trans hl
        exact absurd hmode hnot
    | asleep d =>
      cases hwait.symm.trans (hs.locked.asleep d v hmode)
      exact .inr rfl
  have hline' : ∀ u, (s'.loc u).line k = some i → u = v ∧ s'.loc u = s.loc u := by
    intro u hu
    by_cases hut : u = t
    · subst hut
      rw [Loc.line_of_talk ht'] at hu
      cases hu
    · have heq := hother u hut
      rw [heq] at hu
      exact ⟨hx.line_unique hline u hu, heq⟩
  have honly : ∀ u q, (s'.loc u).talk k i = some q → u = t := fun u q hu => by
    by_contra hut
    rw [hother u hut] at hu
    exact hnobody u q hu
  refine ⟨?_, ?_, ?_, ?_, ?_, ?_⟩
  · intro u w q q' hu hw
    exact (honly u q hu).trans (honly w q' hw).symm
  · exact fun u q _ => ⟨v, by rw [hother v hvt]; exact hline⟩
  · intro w d u q hd' hw hu
    obtain ⟨rfl, heq⟩ := hline' w hw
    cases hc.symm.trans (heq.symm.trans hd')
    obtain rfl := honly u q hu
    cases ht'.symm.trans hu
    rw [hmode]
    unfold Fits
    rw [hpc, hval]
    rcases hwaits with hm | hm
    · exact .inl ⟨hm, hsig, by simp, by simp⟩
    · exact .inr (.inl ⟨hm, hsig⟩)
  · exact fun _ => ⟨v, c, (hother v hvt).trans hc, by rw [hother v hvt]; exact hline,
      by rw [hmode]; exact hcalled⟩
  · intro _ u q hu
    obtain rfl := honly u q hu
    cases ht'.symm.trans hu
    exact .inl rfl
  · exact fun _ _ _ _ _ => ⟨t, _, ht'⟩

/-- **A process that goes on** keeps each counter in order. -/
theorem AtCounter.goes (hd : AtCounter s k i) (hs : o.Sound s) (hx : o.Served s)
    (hrange : 0 ≤ i ∧ i < MAXCLERKS) (hlines : Drawn (.myLine k) (Loc.line k) s') {r : Nat}
    (h : Goes (program o.CLERKCOUNT) s s' t r) : AtCounter s' k i := by
  by_cases hline : (s.loc t).line k = some i
  · exact hd.clerk_goes hs hx hrange h hline
  · by_cases htalk : ∃ q, (s.loc t).talk k i = some q
    · obtain ⟨q, hq⟩ := htalk
      by_cases hrelease : ∃ done, q = .release done
      · obtain ⟨done, rfl⟩ := hrelease
        exact hd.visitor_leaves h hq
      · exact hd.visitor_goes hs hx hrange h hq fun done hq' => hrelease ⟨done, hq'⟩
    · have hstranger : (s.loc t).Stranger k i := ⟨hline, fun q hq => htalk ⟨q, hq⟩⟩
      by_cases hline' : (s'.loc t).line k = some i
      · exact hd.clerk_comes hs h hlines hline hline'
      · by_cases htalk' : ∃ q, (s'.loc t).talk k i = some q
        · obtain ⟨q, hq⟩ := htalk'
          exact hd.visitor_comes hs hx hrange h hstranger hq
        · exact hd.stranger_goes hs hx h hstranger ⟨hline', fun q hq => htalk' ⟨q, hq⟩⟩

/-- **Each counter stays in order**, through every piece of the server's work. -/
theorem AtCounter.micro (hd : AtCounter s k i) (hs : o.Sound s) (hx : o.Served s)
    (hrange : 0 ≤ i ∧ i < MAXCLERKS) {v : Option T} (hm : Micro (program o.CLERKCOUNT) s v s') :
    AtCounter s' k i := by
  have hlines := drawn_micro (draws_line o.CLERKCOUNT k) (discipline _) hs.locked hs.known
    (hx.lines k) hm
  cases moved_micro (discipline _) hs.locked hm with
  | stops h => exact hd.stops hs hx h
  | goes h => exact hd.goes hs hx hrange hlines h
  | granted h => exact hd.granted hs hx h

end Desk

end Nachos.Passport

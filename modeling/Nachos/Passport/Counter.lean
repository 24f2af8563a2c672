import Nachos.Passport.Lines
import Nachos.Passport.Numbers
import Nachos.Passport.Senators

/-!
# The passport office: at the counter

A clerk and its customer talk over the clerk's lock and one condition variable. Whoever speaks
holds the lock, and the other one is asleep, or has been woken and waits for the lock. `Fits` says
which two places of the programs go together.

The state of the clerk is the ticket to the counter: `SIGNALEDCUSTOMER` is set by a clerk that has
called, and the first customer to see it, under the line lock, makes it `BUSY`.
-/

namespace Nachos.Passport

open Lib Lib.Monitor

set_option linter.unusedSectionVars false

/-! ### What is said at which counter -/

/-- The kinds of clerks that say this. -/
def Serve.of (k : Kind) : Serve → Bool
  | .wait | .getSSN | .signal | .release => true
  | .resetPicture | .getPicture | .signalShow | .waitAnswer | .getAnswer | .setPictureCompletion =>
    k = .picture
  | .getApplicationCompletion | .getPictureCompletion | .setPunishment _
  | .setPassportCompletion => k = .passport
  | .getPassportCompletion | .setRejection _ | .signalCertified | .waitMoney | .setDone =>
    k = .cashier
  | .setApplicationCompletion => k = .application

/-- The kinds of clerks that a customer says this to. -/
def Talk.of (k : Kind) : Talk → Bool
  | .getPicture | .setPicture _ | .signalPicture | .waitPicture => k = .picture
  | .getPunishment => k = .passport
  | .getRejection | .signalMoney | .waitPassport => k = .cashier
  | _ => true

theorem Clerk.nextServe_of {k : Kind} {a : Int} {p q : Serve} (h : nextServe k a p = some q)
    (hp : p.of k = true) : q.of k = true := by
  cases k <;> cases p <;> first
    | exact absurd hp Bool.false_ne_true
    | (simp only [nextServe, received] at h; grind [Serve.of])

theorem Visit.talk_of {n : Nat} {k : Kind} {myLine a : Int} {r : Nat} {p q : Talk} {bribe : Bool}
    (h : (Visit.mk k bribe (.talk myLine p)).next n a r = .at (.talk myLine q))
    (hp : p.of k = true) : q.of k = true := by
  cases k <;> cases p <;> first
    | exact absurd hp Bool.false_ne_true
    | (simp only [Visit.next, Visit.Talk.next] at h; grind [Talk.of])

/-! ### The two at a counter -/

/-- The number that was left for the clerk. -/
abbrev sharedSSN (val : MV → Int → Int) (k : Kind) (i : Int) : Int :=
  MV.get val (.sharedDataSSN k) i

/-- What was said about the picture. -/
abbrev sharedPicture (val : MV → Int → Int) (i : Int) : Int := MV.sharedDataPicture.get val i

/-- The clerk has called a customer, which has not come yet. -/
abbrev Signaled (val : MV → Int → Int) (k : Kind) (i : Int) : Prop :=
  MV.get val (.clerkState k) i = SIGNALEDCUSTOMER

/-- The customer is on its way to the clerk, or has left its number. -/
def Talk.arrives (k : Kind) (i : Int) (val : MV → Int → Int) (SSN : Option Int) : Talk → Prop
  | .setBusy => Signaled val k i
  | .releaseLine | .acquire | .setSSN => True
  | .signal => SSN = some (sharedSSN val k i)
  | _ => False

/-- The clerk has done with the customer, which reads the answer and leaves. One that has not
got the lock yet gets it next: it is `free`. -/
def Talk.leaves (k : Kind) (i : Int) (val : MV → Int → Int) (free : Prop) (m : Mode Lock CV) :
    Talk → Prop
  | .wait => k ≠ .cashier ∧ (k = .picture → sharedPicture val i ≠ 0) ∧
      m = .queued (.clerkLock k i) ∧ free
  | .waitPicture => sharedPicture val i ≠ 0 ∧ m = .queued (.clerkLock k i) ∧ free
  | .waitPassport => m = .queued (.clerkLock k i) ∧ free
  | .getPicture => sharedPicture val i ≠ 0
  | .getPunishment | .release _ => True
  | _ => False

/-- Where a customer waits for the clerk of its kind to say the last word. -/
def Talk.served (k : Kind) (i : Int) (val : MV → Int → Int) (q : Talk) : Prop :=
  match k with
  | .application | .passport => q = .wait
  | .picture => (q = .wait ∨ q = .waitPicture) ∧ sharedPicture val i ≠ 0
  | .cashier => q = .waitPassport

/-- **Which places go together**: where the clerk is, and where its customer is then, with their
modes and the number that the customer has. -/
def Fits (k : Kind) (i : Int) (val : MV → Int → Int) (free : Prop) (c : Clerk) (mc : Mode Lock CV)
    (SSN : Option Int) (q : Talk) (mv : Mode Lock CV) : Prop :=
  match c.pc with
  | .call .acquireClerk => q.leaves k i val free mv ∧ (mc ≠ .running → mv = .running)
  | .call .releaseLine => False
  | .serve p =>
    match p with
    | .wait =>
      (mc = .running ∧ q.arrives k i val SSN ∧ q ≠ .setSSN ∧ q ≠ .signal) ∨
        (mc = .asleep (.clerkCV k i) ∧ q.arrives k i val SSN) ∨
        (mc = .queued (.clerkLock k i) ∧ q = .wait ∧ mv ≠ .queued (.clerkLock k i) ∧
          SSN = some (sharedSSN val k i))
    | .getSSN => q = .wait ∧ mv = .asleep (.clerkCV k i) ∧ SSN = some (sharedSSN val k i)
    | .resetPicture | .getApplicationCompletion | .getPictureCompletion | .setPunishment _
    | .setPassportCompletion | .getPassportCompletion | .signalCertified =>
      q = .wait ∧ mv = .asleep (.clerkCV k i) ∧ SSN = some c.customerSSN
    | .setRejection v => v = 0 ∧ q = .wait ∧ mv = .asleep (.clerkCV k i) ∧ SSN = some c.customerSSN
    | .getPicture =>
      (q = .wait ∨ q = .waitPicture) ∧ mv = .asleep (.clerkCV k i) ∧ SSN = some c.customerSSN
    | .signalShow =>
      (q = .wait ∨ q = .waitPicture) ∧ mv = .asleep (.clerkCV k i) ∧ SSN = some c.customerSSN ∧
        sharedPicture val i = 0
    | .waitAnswer =>
      SSN = some c.customerSSN ∧
        ((mc = .running ∧ (q = .wait ∨ q = .waitPicture) ∧ mv = .queued (.clerkLock k i) ∧
            sharedPicture val i = 0) ∨
          (mc = .asleep (.clerkCV k i) ∧
            ((((q = .wait ∨ q = .waitPicture) ∧ mv = .queued (.clerkLock k i) ∨ q = .getPicture) ∧
                sharedPicture val i = 0) ∨
              (∃ liked, q = .setPicture liked) ∨ q = .signalPicture)) ∨
          (mc = .queued (.clerkLock k i) ∧ q = .waitPicture ∧ mv ≠ .queued (.clerkLock k i)))
    | .getAnswer => q = .waitPicture ∧ mv = .asleep (.clerkCV k i) ∧ SSN = some c.customerSSN
    | .waitMoney =>
      SSN = some c.customerSSN ∧
        ((mc = .running ∧ q = .wait ∧ mv = .queued (.clerkLock k i)) ∨
          (mc = .asleep (.clerkCV k i) ∧
            (q = .wait ∧ mv = .queued (.clerkLock k i) ∨ q = .getRejection ∨ q = .signalMoney)) ∨
          (mc = .queued (.clerkLock k i) ∧ q = .waitPassport ∧ mv ≠ .queued (.clerkLock k i)))
    | .setDone => q = .waitPassport ∧ mv = .asleep (.clerkCV k i) ∧ SSN = some c.customerSSN
    | .signal => q.served k i val ∧ mv = .asleep (.clerkCV k i) ∧ SSN = some c.customerSSN
    | .setPictureCompletion | .release =>
      q.leaves k i val True mv ∧ mv = .queued (.clerkLock k i) ∧ SSN = some c.customerSSN
    | .setApplicationCompletion => q.leaves k i val free mv
  | _ => q.leaves k i val free mv

/-- The clerk is not at its counter. -/
def ClerkPC.away : ClerkPC → Bool
  | .call .acquireClerk | .call .releaseLine => false
  | .serve p => p = .setApplicationCompletion
  | _ => true

section Fits

variable {n : Nat} {k : Kind} {i : Int} {val val' : MV → Int → Int} {free free' : Prop} {c : Clerk}
  {SSN : Option Int} {q : Talk} {mc mv mv' : Mode Lock CV} {r : Nat}

theorem Talk.leaves_congr (h : q.leaves k i val free mv) (hfree : free → free')
    (hpicture : sharedPicture val' i = sharedPicture val i) : q.leaves k i val' free' mv := by
  unfold leaves at h ⊢
  rw [hpicture]
  cases q <;> simp_all

/-- While the clerk is away, its customer is leaving. -/
theorem fits_away (h : c.pc.away = true) :
    Fits k i val free c mc SSN q mv ↔ q.leaves k i val free mv := by
  obtain ⟨k', myLine, money, fromLine, cSSN, pc⟩ := c
  cases pc with
  | call p => cases p <;> first | exact absurd h Bool.false_ne_true | exact Iff.rfl
  | serve p => cases p <;> first | exact absurd h Bool.false_ne_true | exact Iff.rfl
  | _ => exact Iff.rfl

/-- A clerk that is away comes back by taking its own lock. -/
theorem Clerk.next_away {a : Int} (h : c.pc.away = true) :
    (c.next n a r).pc.away = true ∨ (c.next n a r).pc = .call .acquireClerk := by
  obtain ⟨k', myLine, money, fromLine, cSSN, pc⟩ := c
  cases pc with
  | draw p => cases p <;> exact .inl rfl
  | senator p => cases p with
    | release waiting => cases waiting <;> exact .inl rfl
    | _ => exact .inl rfl
  | call p => cases p with
    | acquireClerk | releaseLine => exact absurd h Bool.false_ne_true
    | setSignaled => exact .inr rfl
    | onBreak p => cases p with
      | releaseEnd => exact .inl rfl
      | _ =>
        simp only [next, nextCall]
        split <;> exact .inl rfl
    | getBribeLineCount | getLineCount =>
      simp only [next, nextCall]
      split <;> exact .inl rfl
    | _ => exact .inl rfl
  | serve p => cases p <;> first | exact absurd h Bool.false_ne_true | exact .inl rfl
  | exited => exact .inl rfl

/-- What a clerk that is away asks for has nothing to do with its counter. -/
theorem Clerk.request_away (h : c.pc.away = true) :
    (∀ j l, c.request ≠ .Signal (.clerkCV c.kind j) l) ∧
      (∀ j, c.request ≠ .Release (.clerkLock c.kind j) ∧
        c.request ≠ .Acquire (.clerkLock c.kind j) ∧
        ∀ d, c.request ≠ .Wait d (.clerkLock c.kind j)) ∧
      ∀ j v, c.request ≠ .Set .sharedDataPicture j v := by
  obtain ⟨k', myLine, money, fromLine, cSSN, pc⟩ := c
  cases pc with
  | draw p => cases p <;> simp [request, Draw.request]
  | senator p => cases p <;> simp [request, SenatorCheck.request]
  | call p => cases p with
    | acquireClerk | releaseLine => exact absurd h Bool.false_ne_true
    | onBreak p => cases p <;> simp [request, Break.request]
    | _ => simp [request]
  | serve p => cases p <;> first | exact absurd h Bool.false_ne_true | simp [request]
  | exited => simp [request]

/-- **The clerk goes on.** -/
theorem Fits.clerk_goes (hk : c.kind = k) (hi : c.myLine = i)
    (hof : ∀ p, c.pc = .serve p → p.of k = true) (hrange : 0 ≤ i ∧ i < MAXCLERKS)
    (h : Fits k i val free c .running SSN q mv) (hacq : c.pc ≠ .call .acquireClerk)
    (hrel : c.request = .Release (.clerkLock k i) → free')
    (hfree : c.request ≠ .Release (.clerkLock k i) → free → free')
    (hsig : c.request = .Signal (.clerkCV k i) (.clerkLock k i) → mv = .asleep (.clerkCV k i) →
      mv' = .queued (.clerkLock k i))
    (hmv : c.request ≠ .Signal (.clerkCV k i) (.clerkLock k i) → mv' = mv)
    (hawake : ∀ d l, c.request ≠ .Wait d l)
    (hcert : c.pc = .serve .getPassportCompletion → (answered n c.request val).1 ≠ 0) :
    Fits k i (answered n c.request val).2 free' (c.next n (answered n c.request val).1 r) .running
      SSN q mv' := by
  by_cases haway : c.pc.away = true
  · subst hk
    obtain ⟨hnosig, hnorel, hnoset⟩ := Clerk.request_away haway
    have hleaves := Talk.leaves_congr ((fits_away haway).mp h) (hfree (hnorel i).1)
      (get_answered n c.request val i fun j v => hnoset j v)
    rw [hmv (hnosig i _)]
    rcases Clerk.next_away (n := n) (r := r) (a := (answered n c.request val).1) haway with hnext | hnext
    · exact (fits_away hnext).mpr hleaves
    · unfold Fits
      rw [hnext]
      exact ⟨hleaves, fun hnot => absurd rfl hnot⟩
  · obtain ⟨k', myLine, money, fromLine, cSSN, pc⟩ := c
    obtain rfl : k' = k := hk
    obtain rfl : myLine = i := hi
    cases pc with
    | call p => cases p with
      | acquireClerk => exact absurd rfl hacq
      | releaseLine => exact h.elim
      | _ => exact absurd rfl haway
    | serve p =>
      cases p with
      | wait | waitAnswer | waitMoney => exact absurd rfl (hawake _ _)
      | getSSN =>
        obtain ⟨rfl, rfl, rfl⟩ := h
        rw [hmv (by rintro ⟨⟩)]
        cases k' <;> exact ⟨rfl, rfl, rfl⟩
      | resetPicture =>
        obtain ⟨rfl, rfl, rfl⟩ := h
        rw [hmv (by rintro ⟨⟩)]
        exact ⟨.inl rfl, rfl, rfl⟩
      | getPicture =>
        obtain ⟨hq, rfl, rfl⟩ := h
        rw [hmv (by rintro ⟨⟩)]
        obtain rfl : k' = .picture := of_decide_eq_true (hof _ rfl)
        simp only [Clerk.next, Clerk.nextServe]
        split
        · rename_i hnext
          split at hnext
          · rename_i hpicture
            cases hnext
            exact ⟨hq, rfl, rfl, hpicture⟩
          · rename_i hpicture
            cases hnext
            exact ⟨⟨hq, hpicture⟩, rfl, rfl⟩
        · rename_i hnext
          split at hnext <;> cases hnext
      | signalShow =>
        obtain ⟨hq, rfl, rfl, hpicture⟩ := h
        rw [hsig rfl rfl]
        exact ⟨rfl, .inl ⟨rfl, hq, rfl, hpicture⟩⟩
      | getAnswer =>
        obtain ⟨rfl, rfl, rfl⟩ := h
        rw [hmv (by rintro ⟨⟩)]
        exact ⟨.inr rfl, rfl, rfl⟩
      | setPictureCompletion =>
        obtain ⟨hleaves, rfl, rfl⟩ := h
        rw [hmv (by rintro ⟨⟩)]
        refine ⟨Talk.leaves_congr hleaves id ?_, rfl, rfl⟩
        exact get_answered n _ val myLine fun j v => by rintro ⟨⟩
      | getApplicationCompletion | getPictureCompletion =>
        obtain ⟨rfl, rfl, rfl⟩ := h
        rw [hmv (by rintro ⟨⟩)]
        simp only [Clerk.next, Clerk.nextServe]
        split
        · rename_i hq
          split at hq <;> cases hq <;> exact ⟨rfl, rfl, rfl⟩
        · rename_i hq
          split at hq <;> cases hq
      | setPunishment v =>
        obtain ⟨rfl, rfl, rfl⟩ := h
        rw [hmv (by rintro ⟨⟩)]
        obtain rfl : k' = .passport := of_decide_eq_true (hof _ rfl)
        simp only [Clerk.next, Clerk.nextServe]
        split
        · rename_i hnext
          split at hnext <;> cases hnext <;> exact ⟨rfl, rfl, rfl⟩
        · rename_i hnext
          split at hnext <;> cases hnext
      | setPassportCompletion =>
        obtain ⟨rfl, rfl, rfl⟩ := h
        rw [hmv (by rintro ⟨⟩)]
        obtain rfl : k' = .passport := of_decide_eq_true (hof _ rfl)
        exact ⟨rfl, rfl, rfl⟩
      | getPassportCompletion =>
        obtain ⟨rfl, rfl, rfl⟩ := h
        rw [hmv (by rintro ⟨⟩)]
        simp only [Clerk.next, Clerk.nextServe, if_neg (hcert rfl)]
        exact ⟨rfl, rfl, rfl, rfl⟩
      | setRejection v =>
        obtain ⟨rfl, rfl, rfl, rfl⟩ := h
        rw [hmv (by rintro ⟨⟩)]
        exact ⟨rfl, rfl, rfl⟩
      | signalCertified =>
        obtain ⟨rfl, rfl, rfl⟩ := h
        rw [hsig rfl rfl]
        exact ⟨rfl, .inl ⟨rfl, rfl, rfl⟩⟩
      | setDone =>
        obtain ⟨rfl, rfl, rfl⟩ := h
        rw [hmv (by rintro ⟨⟩)]
        obtain rfl : k' = .cashier := of_decide_eq_true (hof _ rfl)
        exact ⟨rfl, rfl, rfl⟩
      | signal =>
        obtain ⟨hq, rfl, rfl⟩ := h
        rw [hsig rfl rfl]
        cases k' with
        | picture =>
          obtain ⟨rfl | rfl, hpicture⟩ := hq
          · exact ⟨⟨by decide, fun _ => hpicture, rfl, trivial⟩, rfl, rfl⟩
          · exact ⟨⟨hpicture, rfl, trivial⟩, rfl, rfl⟩
        | cashier =>
          obtain rfl : q = .waitPassport := hq
          exact ⟨⟨rfl, trivial⟩, rfl, rfl⟩
        | _ =>
          obtain rfl : q = .wait := hq
          exact ⟨⟨by decide, by rintro ⟨⟩, rfl, trivial⟩, rfl, rfl⟩
      | release =>
        obtain ⟨hleaves, rfl, rfl⟩ := h
        rw [hmv (by rintro ⟨⟩)]
        have hpicture : sharedPicture val myLine = sharedPicture val myLine := rfl
        have hleaves' := Talk.leaves_congr hleaves (fun _ => hrel rfl) hpicture
        cases k' <;> exact hleaves'
      | setApplicationCompletion => exact absurd rfl haway
    | _ => exact absurd rfl haway

/-- **The clerk waits**, for its lock or for its customer. -/
theorem Fits.clerk_stops (hk : c.kind = k) (hi : c.myLine = i)
    (h : Fits k i val free c .running SSN q mv)
    (hq : q = .getPicture ∨ q = .getPunishment ∨ (∃ done, q = .release done) → mv = .running)
    (hwhy : (∃ l, c.request = .Acquire l ∧ mc = .queued l ∧ (l = .clerkLock k i → ¬ free)) ∨
      ∃ d l, c.request = .Wait d l ∧ mc = .asleep d)
    (hfree : free → free') : Fits k i val free' c mc SSN q mv := by
  by_cases haway : c.pc.away = true
  · exact (fits_away haway).mpr (Talk.leaves_congr ((fits_away haway).mp h) hfree rfl)
  · obtain ⟨k', myLine, money, fromLine, cSSN, pc⟩ := c
    obtain rfl : k' = k := hk
    obtain rfl : myLine = i := hi
    cases pc with
    | call p => cases p with
      | acquireClerk =>
        refine ⟨Talk.leaves_congr h.1 hfree rfl, fun _ => ?_⟩
        rcases hwhy with ⟨l, hreq, -, hbusy⟩ | ⟨d, l, hreq, -⟩
        · have hlock : acquireClerkLock k' myLine = .Acquire l := hreq
          unfold acquireClerkLock at hlock
          split at hlock <;> cases hlock
          have hnot := hbusy rfl
          have hleaves := h.1
          cases q <;> simp_all [Talk.leaves]
        · have hlock : acquireClerkLock k' myLine = .Wait d l := hreq
          unfold acquireClerkLock at hlock
          split at hlock <;> cases hlock
      | releaseLine => exact h.elim
      | _ => exact absurd rfl haway
    | serve p =>
      have hasleep : (∃ d l, (Clerk.mk k' myLine money fromLine cSSN (.serve p)).request =
          .Wait d l ∧ mc = .asleep d) := by
        rcases hwhy with ⟨l, hreq, -⟩ | hwait
        · cases p <;> cases hreq
        · exact hwait
      obtain ⟨d, l, hreq, rfl⟩ := hasleep
      cases p with
      | wait =>
        cases hreq
        rcases h with ⟨-, harrives, -⟩ | ⟨hmode, -⟩ | ⟨hmode, -⟩
        · exact .inr (.inl ⟨rfl, harrives⟩)
        · cases hmode
        · cases hmode
      | waitAnswer =>
        cases hreq
        rcases h with ⟨hSSN, ⟨-, hq, hmv, hpicture⟩ | ⟨hmode, -⟩ | ⟨hmode, -⟩⟩
        · exact ⟨hSSN, .inr (.inl ⟨rfl, .inl ⟨.inl ⟨hq, hmv⟩, hpicture⟩⟩)⟩
        · cases hmode
        · cases hmode
      | waitMoney =>
        cases hreq
        rcases h with ⟨hSSN, ⟨-, hq, hmv⟩ | ⟨hmode, -⟩ | ⟨hmode, -⟩⟩
        · exact ⟨hSSN, .inr (.inl ⟨rfl, .inl ⟨hq, hmv⟩⟩)⟩
        · cases hmode
        · cases hmode
      | _ => cases hreq
    | _ => exact absurd rfl haway

/-- **The clerk is given a lock.** It is its own only where nobody else is at the counter. -/
theorem Fits.clerk_granted (hk : c.kind = k) (hi : c.myLine = i) {l : Lock}
    (h : Fits k i val free c (.queued l) SSN q mv)
    (hreq : c.request = .Acquire l ∨ ∃ d, c.request = .Wait d l)
    (hbusy : c.pc ≠ .call .acquireClerk) (hfree : l ≠ .clerkLock k i → free → free')
    (hasleep : l = .clerkLock k i → q = .wait ∨ q = .waitPicture ∨ q = .waitPassport →
      mv ≠ .queued (.clerkLock k i) → mv = .asleep (.clerkCV k i)) :
    Fits k i val free' (c.next n 0 r) .running SSN q mv := by
  by_cases haway : c.pc.away = true
  · have hl : l ≠ .clerkLock k i := by
      rintro rfl
      have hnot := (Clerk.request_away haway).2.1 i
      rw [hk] at hnot
      rcases hreq with hreq | ⟨d, hreq⟩
      · exact hnot.2.1 hreq
      · exact hnot.2.2 d hreq
    have hpicture : sharedPicture val i = sharedPicture val i := rfl
    have hleaves := Talk.leaves_congr ((fits_away haway).mp h) (hfree hl) hpicture
    rcases Clerk.next_away (n := n) (r := r) (a := 0) haway with hnext | hnext
    · exact (fits_away hnext).mpr hleaves
    · unfold Fits
      rw [hnext]
      exact ⟨hleaves, fun hnot => absurd rfl hnot⟩
  · obtain ⟨k', myLine, money, fromLine, cSSN, pc⟩ := c
    obtain rfl : k' = k := hk
    obtain rfl : myLine = i := hi
    cases pc with
    | call p => cases p with
      | acquireClerk => exact absurd rfl hbusy
      | releaseLine => exact h.elim
      | _ => exact absurd rfl haway
    | serve p =>
      have hwait : ∃ d, (Clerk.mk k' myLine money fromLine cSSN (.serve p)).request = .Wait d l := by
        rcases hreq with hreq | hwait
        · cases p <;> cases hreq
        · exact hwait
      obtain ⟨d, hreq⟩ := hwait
      cases p with
      | wait =>
        cases hreq
        rcases h with ⟨hmode, -⟩ | ⟨hmode, -⟩ | ⟨-, rfl, hmv, hSSN⟩
        · cases hmode
        · cases hmode
        · exact ⟨rfl, hasleep rfl (.inl rfl) hmv, hSSN⟩
      | waitAnswer =>
        cases hreq
        rcases h with ⟨hSSN, ⟨hmode, -⟩ | ⟨hmode, -⟩ | ⟨-, rfl, hmv⟩⟩
        · cases hmode
        · cases hmode
        · exact ⟨rfl, hasleep rfl (.inr (.inl rfl)) hmv, hSSN⟩
      | waitMoney =>
        cases hreq
        rcases h with ⟨hSSN, ⟨hmode, -⟩ | ⟨hmode, -⟩ | ⟨-, rfl, hmv⟩⟩
        · cases hmode
        · cases hmode
        · exact ⟨rfl, hasleep rfl (.inr (.inr rfl)) hmv, hSSN⟩
      | _ => cases hreq
    | _ => exact absurd rfl haway

/-! ### The customer's side -/

/-- Who comes finds the clerk waiting, or about to. -/
theorem Fits.arriving (h : Fits k i val free c mc SSN q mv)
    (hq : q = .setBusy ∨ q = .releaseLine ∨ q = .acquire ∨ q = .setSSN ∨ q = .signal) :
    c.pc = .serve .wait ∧ q.arrives k i val SSN ∧
      ((mc = .running ∧ q ≠ .setSSN ∧ q ≠ .signal) ∨ mc = .asleep (.clerkCV k i)) := by
  have hnot : ∀ {val' : MV → Int → Int} {free'}, ¬ q.leaves k i val' free' mv := by
    rcases hq with rfl | rfl | rfl | rfl | rfl <;> exact fun h => h
  by_cases haway : c.pc.away = true
  · exact absurd ((fits_away haway).mp h) hnot
  · obtain ⟨k', myLine, money, fromLine, cSSN, pc⟩ := c
    cases pc with
    | call p => cases p with
      | acquireClerk => exact absurd h.1 hnot
      | releaseLine => exact h.elim
      | _ => exact absurd rfl haway
    | serve p => cases p with
      | wait =>
        rcases h with ⟨hmode, harrives, hlate⟩ | ⟨hmode, harrives⟩ | ⟨-, rfl, -⟩
        · exact ⟨rfl, harrives, .inl ⟨hmode, hlate⟩⟩
        · exact ⟨rfl, harrives, .inr hmode⟩
        · rcases hq with h | h | h | h | h <;> cases h
      | setPictureCompletion | release => exact absurd h.1 hnot
      | setApplicationCompletion => exact absurd rfl haway
      | signal =>
        have hserved := h.1
        rcases hq with rfl | rfl | rfl | rfl | rfl <;> cases k <;> simp [Talk.served] at hserved
      | _ =>
        exfalso
        rcases hq with rfl | rfl | rfl | rfl | rfl <;> simp [Fits] at h
    | _ => exact absurd rfl haway

/-- Who leaves does not meet its clerk again. -/
theorem fits_leaves (hc : c.pc.away = true ∨ c.pc = .call .acquireClerk)
    (hq : q.leaves k i val free .running) : Fits k i val free c mc SSN q .running := by
  rcases hc with haway | hpc
  · exact (fits_away haway).mpr hq
  · unfold Fits
    rw [hpc]
    exact ⟨hq, fun _ => rfl⟩

/-- Who reads the last answer is leaving. The one about the picture may not be the last. -/
theorem Fits.leaving (h : Fits k i val free c mc SSN q .running)
    (hq : q = .getPicture ∨ q = .getPunishment ∨ ∃ done, q = .release done) :
    ((c.pc.away = true ∨ c.pc = .call .acquireClerk) ∧ q.leaves k i val free .running) ∨
      (c.pc = .serve .waitAnswer ∧ mc = .asleep (.clerkCV k i) ∧ q = .getPicture ∧
        SSN = some c.customerSSN ∧ sharedPicture val i = 0) := by
  by_cases haway : c.pc.away = true
  · exact .inl ⟨.inl haway, (fits_away haway).mp h⟩
  · obtain ⟨k', myLine, money, fromLine, cSSN, pc⟩ := c
    cases pc with
    | call p => cases p with
      | acquireClerk => exact .inl ⟨.inr rfl, h.1⟩
      | releaseLine => exact h.elim
      | _ => exact absurd rfl haway
    | serve p => cases p with
      | waitAnswer =>
        rcases h with ⟨hSSN, ⟨-, -, hmv, -⟩ | ⟨hmc, hsays⟩ | ⟨-, rfl, -⟩⟩
        · cases hmv
        · rcases hsays with ⟨⟨-, hmv⟩ | rfl, hpicture⟩ | ⟨liked, rfl⟩ | rfl
          · cases hmv
          · exact .inr ⟨rfl, hmc, rfl, hSSN, hpicture⟩
          · rcases hq with h | h | ⟨_, h⟩ <;> cases h
          · rcases hq with h | h | ⟨_, h⟩ <;> cases h
        · rcases hq with h | h | ⟨_, h⟩ <;> cases h
      | setApplicationCompletion => exact absurd rfl haway
      | setPictureCompletion | release => cases h.2.1
      | signal =>
        have hserved := h.1
        rcases hq with rfl | rfl | ⟨_, rfl⟩ <;> cases k <;> simp [Talk.served] at hserved
      | wait =>
        exfalso
        rcases hq with rfl | rfl | ⟨_, rfl⟩ <;> simp [Fits, Talk.arrives] at h
      | _ =>
        exfalso
        rcases hq with rfl | rfl | ⟨_, rfl⟩ <;> simp [Fits] at h
    | _ => exact absurd rfl haway

/-- What else a customer does at the counter it does while its clerk sleeps. -/
theorem Fits.answering (h : Fits k i val free c mc SSN q .running)
    (hq : (∃ liked, q = .setPicture liked) ∨ q = .signalPicture ∨ q = .getRejection ∨
      q = .signalMoney) :
    mc = .asleep (.clerkCV k i) ∧ SSN = some c.customerSSN ∧
      ((c.pc = .serve .waitAnswer ∧ ((∃ liked, q = .setPicture liked) ∨ q = .signalPicture)) ∨
        (c.pc = .serve .waitMoney ∧ (q = .getRejection ∨ q = .signalMoney))) := by
  have hnot : ∀ {free'}, ¬ q.leaves k i val free' .running := by
    rcases hq with ⟨liked, rfl⟩ | rfl | rfl | rfl <;> exact fun h => h
  by_cases haway : c.pc.away = true
  · exact absurd ((fits_away haway).mp h) hnot
  · obtain ⟨k', myLine, money, fromLine, cSSN, pc⟩ := c
    cases pc with
    | call p => cases p with
      | acquireClerk => exact absurd h.1 hnot
      | releaseLine => exact h.elim
      | _ => exact absurd rfl haway
    | serve p => cases p with
      | waitAnswer =>
        rcases h with ⟨hSSN, ⟨-, -, hmv, -⟩ | ⟨hmc, hsays⟩ | ⟨-, rfl, -⟩⟩
        · cases hmv
        · refine ⟨hmc, hSSN, .inl ⟨rfl, ?_⟩⟩
          rcases hsays with ⟨⟨-, hmv⟩ | rfl, -⟩ | ⟨liked, rfl⟩ | rfl
          · cases hmv
          · rcases hq with ⟨_, h⟩ | h | h | h <;> cases h
          · exact .inl ⟨liked, rfl⟩
          · exact .inr rfl
        · rcases hq with ⟨_, h⟩ | h | h | h <;> cases h
      | waitMoney =>
        rcases h with ⟨hSSN, ⟨-, -, hmv⟩ | ⟨hmc, hsays⟩ | ⟨-, rfl, -⟩⟩
        · cases hmv
        · refine ⟨hmc, hSSN, .inr ⟨rfl, ?_⟩⟩
          rcases hsays with ⟨-, hmv⟩ | hsays
          · cases hmv
          · exact hsays
        · rcases hq with ⟨_, h⟩ | h | h | h <;> cases h
      | setApplicationCompletion => exact absurd rfl haway
      | setPictureCompletion | release => exact absurd h.1 hnot
      | signal =>
        have hserved := h.1
        rcases hq with ⟨_, rfl⟩ | rfl | rfl | rfl <;> cases k <;> simp [Talk.served] at hserved
      | wait =>
        exfalso
        rcases hq with ⟨_, rfl⟩ | rfl | rfl | rfl <;> simp [Fits, Talk.arrives] at h
      | _ =>
        exfalso
        rcases hq with ⟨_, rfl⟩ | rfl | rfl | rfl <;> simp [Fits] at h
    | _ => exact absurd rfl haway

/-- **The customer goes on.** -/
theorem Fits.visitor_goes {bribe : Bool} {number j : Int} {q' : Talk} {mc' : Mode Lock CV}
    (hrange : 0 ≤ i ∧ i < MAXCLERKS) (h : Fits k i val free c mc (some number) q .running)
    (hnext : (Visit.mk k bribe (.talk i q)).next n
      (answered n ((Visit.mk k bribe (.talk i q)).request number) val).1 r = .at (.talk j q'))
    (hawake : q ≠ .wait ∧ q ≠ .waitPicture ∧ q ≠ .waitPassport)
    (hacq : q = .acquire → mc ≠ .running)
    (hsig : q = .signal ∨ q = .signalPicture ∨ q = .signalMoney → mc = .asleep (.clerkCV k i) →
      mc' = .queued (.clerkLock k i))
    (hmc : ¬ (q = .signal ∨ q = .signalPicture ∨ q = .signalMoney) → mc' = mc)
    (hrejection : q = .getRejection →
      (answered n ((Visit.mk k bribe (.talk i q)).request number) val).1 ≠ 1) :
    Fits k i (answered n ((Visit.mk k bribe (.talk i q)).request number) val).2 free' c mc'
      (some number) q' .running := by
  have hcomes : ∀ {p : Talk}, p.arrives k i
      (answered n ((Visit.mk k bribe (.talk i q)).request number) val).2 (some number) →
      c.pc = .serve .wait → (mc = .running ∧ p ≠ .setSSN ∧ p ≠ .signal) ∨
        mc = .asleep (.clerkCV k i) → Fits k i
      (answered n ((Visit.mk k bribe (.talk i q)).request number) val).2 free' c mc
      (some number) p .running := by
    rintro p harrives hpc (⟨rfl, hlate⟩ | rfl)
    · unfold Fits
      rw [hpc]
      exact .inl ⟨rfl, harrives, hlate⟩
    · unfold Fits
      rw [hpc]
      exact .inr (.inl ⟨rfl, harrives⟩)
  cases q with
  | wait => exact absurd rfl hawake.1
  | waitPicture => exact absurd rfl hawake.2.1
  | waitPassport => exact absurd rfl hawake.2.2
  | setBusy =>
    obtain ⟨hpc, -, hmode⟩ := h.arriving (.inl rfl)
    cases hnext
    rw [hmc (by simp)]
    exact hcomes trivial hpc (hmode.imp_left fun hm => ⟨hm.1, by simp, by simp⟩)
  | releaseLine =>
    obtain ⟨hpc, -, hmode⟩ := h.arriving (.inr (.inl rfl))
    cases hnext
    rw [hmc (by simp)]
    exact hcomes trivial hpc (hmode.imp_left fun hm => ⟨hm.1, by simp, by simp⟩)
  | acquire =>
    obtain ⟨hpc, -, hmode⟩ := h.arriving (.inr (.inr (.inl rfl)))
    cases hnext
    rw [hmc (by simp)]
    exact hcomes trivial hpc (.inr (hmode.resolve_left fun hm => hacq rfl hm.1))
  | setSSN =>
    obtain ⟨hpc, -, hmode⟩ := h.arriving (.inr (.inr (.inr (.inl rfl))))
    cases hnext
    rw [hmc (by simp)]
    refine hcomes (congrArg some ?_) hpc (.inr (hmode.resolve_left fun hm => hm.2.1 rfl))
    have hsize : (i : Int) < (MV.sharedDataSSN k).size := by
      cases k
      case cashier => exact hrange.2.trans (by decide)
      all_goals exact hrange.2
    exact (get_set_self n ⟨hrange.1, hsize⟩).symm
  | signal =>
    obtain ⟨hpc, hnumber, hmode⟩ := h.arriving (.inr (.inr (.inr (.inr rfl))))
    cases hnext
    rw [hsig (.inl rfl) (hmode.resolve_left fun hm => hm.2.2 rfl)]
    unfold Fits
    rw [hpc]
    exact .inr (.inr ⟨rfl, rfl, by simp, hnumber⟩)
  | getPicture =>
    rw [hmc (by simp)]
    rcases h.leaving (.inl rfl) with ⟨hc, hpicture⟩ | ⟨hpc, rfl, -, hnumber, hpicture⟩
    · simp only [Visit.next, Visit.Talk.next] at hnext
      split at hnext
      · rename_i hzero
        exact absurd hzero hpicture
      · cases hnext
        exact fits_leaves hc trivial
    · simp only [Visit.next, Visit.Talk.next] at hnext
      split at hnext
      · cases hnext
        unfold Fits
        rw [hpc]
        exact ⟨hnumber, .inr (.inl ⟨rfl, .inr (.inl ⟨_, rfl⟩)⟩)⟩
      · rename_i hnot
        exact absurd hpicture hnot
  | setPicture liked =>
    obtain ⟨rfl, hnumber, ⟨hpc, -⟩ | ⟨-, hq⟩⟩ := h.answering (.inl ⟨liked, rfl⟩)
    · cases hnext
      rw [hmc (by simp)]
      unfold Fits
      rw [hpc]
      exact ⟨hnumber, .inr (.inl ⟨rfl, .inr (.inr rfl)⟩)⟩
    · rcases hq with hq | hq <;> cases hq
  | signalPicture =>
    obtain ⟨rfl, hnumber, ⟨hpc, -⟩ | ⟨-, hq⟩⟩ := h.answering (.inr (.inl rfl))
    · cases hnext
      rw [hsig (.inr (.inl rfl)) rfl]
      unfold Fits
      rw [hpc]
      exact ⟨hnumber, .inr (.inr ⟨rfl, rfl, by simp⟩)⟩
    · rcases hq with hq | hq <;> cases hq
  | getPunishment =>
    rcases h.leaving (.inr (.inl rfl)) with ⟨hc, -⟩ | ⟨-, -, hq, -⟩
    · cases hnext
      exact fits_leaves hc trivial
    · cases hq
  | getRejection =>
    obtain ⟨rfl, hnumber, ⟨-, hq⟩ | ⟨hpc, -⟩⟩ := h.answering (.inr (.inr (.inl rfl)))
    · rcases hq with ⟨_, hq⟩ | hq <;> cases hq
    · simp only [Visit.next, Visit.Talk.next] at hnext
      rw [if_neg (hrejection rfl)] at hnext
      cases hnext
      rw [hmc (by simp)]
      unfold Fits
      rw [hpc]
      exact ⟨hnumber, .inr (.inl ⟨rfl, .inr (.inr rfl)⟩)⟩
  | signalMoney =>
    obtain ⟨rfl, hnumber, ⟨-, hq⟩ | ⟨hpc, -⟩⟩ := h.answering (.inr (.inr (.inr rfl)))
    · rcases hq with ⟨_, hq⟩ | hq <;> cases hq
    · cases hnext
      rw [hsig (.inr (.inr rfl)) rfl]
      unfold Fits
      rw [hpc]
      exact ⟨hnumber, .inr (.inr ⟨rfl, rfl, by simp⟩)⟩
  | release done => cases hnext

/-- **The customer waits**, for the clerk's lock or for the clerk. -/
theorem Fits.visitor_stops (h : Fits k i val free c mc SSN q .running)
    (hwhy : q = .acquire ∨ q = .wait ∨ q = .waitPicture ∨ q = .waitPassport)
    (hmv : q ≠ .acquire → mv = .asleep (.clerkCV k i)) :
    Fits k i val free' c mc SSN q mv := by
  have hmv' : q ≠ .acquire → mv ≠ .queued (.clerkLock k i) := fun hq => by
    rw [hmv hq]
    simp
  have hnot : ∀ {free : Prop}, ¬ q.leaves k i val free .running := by
    rcases hwhy with rfl | rfl | rfl | rfl <;> simp [Talk.leaves]
  by_cases haway : c.pc.away = true
  · exact absurd ((fits_away haway).mp h) hnot
  · obtain ⟨k', myLine, money, fromLine, cSSN, pc⟩ := c
    cases pc with
    | call p => cases p with
      | acquireClerk => exact absurd h.1 hnot
      | releaseLine => exact h.elim
      | _ => exact absurd rfl haway
    | serve p => cases p with
      | wait =>
        rcases h with h | h | ⟨hmc, rfl, -, hnumber⟩
        · exact .inl h
        · exact .inr (.inl h)
        · exact .inr (.inr ⟨hmc, rfl, hmv' (by simp), hnumber⟩)
      | waitAnswer =>
        rcases h with ⟨hnumber, ⟨-, -, hq, -⟩ | ⟨hmc, hsays⟩ | ⟨hmc, rfl, -⟩⟩
        · cases hq
        · exfalso
          rcases hwhy with rfl | rfl | rfl | rfl <;> simp at hsays
        · exact ⟨hnumber, .inr (.inr ⟨hmc, rfl, hmv' (by simp)⟩)⟩
      | waitMoney =>
        rcases h with ⟨hnumber, ⟨-, -, hq⟩ | ⟨hmc, hsays⟩ | ⟨hmc, rfl, -⟩⟩
        · cases hq
        · exfalso
          rcases hwhy with rfl | rfl | rfl | rfl <;> simp at hsays
        · exact ⟨hnumber, .inr (.inr ⟨hmc, rfl, hmv' (by simp)⟩)⟩
      | setRejection v => cases h.2.2.1
      | setApplicationCompletion => exact absurd rfl haway
      | _ => cases h.2.1
    | _ => exact absurd rfl haway

/-- **The customer is given the clerk's lock**, which the clerk does not hold then. -/
theorem Fits.visitor_granted {bribe : Bool} {j : Int} {q' : Talk} (hk : c.kind = k)
    (hi : c.myLine = i) (hof : ∀ p, c.pc = .serve p → p.of k = true)
    (h : Fits k i val free c mc SSN q (.queued (.clerkLock k i)))
    (hwhy : q = .acquire ∨ q = .wait ∨ q = .waitPicture ∨ q = .waitPassport)
    (hnext : (Visit.mk k bribe (.talk i q)).next n 0 r = .at (.talk j q'))
    (hclerk : c.held (.clerkLock k i) → mc ≠ .running)
    (htold : c.pc = .serve .setPictureCompletion ∨ c.pc = .serve .release → mc = .running) :
    Fits k i val free' c mc SSN q' .running := by
  -- who was leaving goes on to read, and leave
  have hleaves : ∀ {free}, q.leaves k i val free (.queued (.clerkLock k i)) →
      q'.leaves k i val free' .running := by
    intro free hq
    rcases hwhy with rfl | rfl | rfl | rfl
    · exact hq.elim
    · cases k with
      | cashier => exact absurd rfl hq.1
      | picture =>
        cases hnext
        exact hq.2.1 rfl
      | _ =>
        cases hnext
        trivial
    · cases hnext
      exact hq.1
    · cases hnext
      trivial
  by_cases haway : c.pc.away = true
  · exact fits_leaves (.inl haway) (hleaves ((fits_away haway).mp h))
  · obtain ⟨k', myLine, money, fromLine, cSSN, pc⟩ := c
    obtain rfl : k' = k := hk
    obtain rfl : myLine = i := hi
    cases pc with
    | call p => cases p with
      | acquireClerk => exact fits_leaves (.inr rfl) (hleaves h.1)
      | releaseLine => exact h.elim
      | _ => exact absurd rfl haway
    | serve p => cases p with
      | wait =>
        rcases h with ⟨hmc, -⟩ | ⟨hmc, harrives⟩ | ⟨-, -, hmv, -⟩
        · exact absurd hmc (hclerk rfl)
        · rcases hwhy with rfl | rfl | rfl | rfl
          · cases hnext
            exact .inr (.inl ⟨hmc, trivial⟩)
          all_goals exact harrives.elim
        · exact absurd rfl hmv
      | waitAnswer =>
        obtain rfl : k' = .picture := of_decide_eq_true (hof _ rfl)
        rcases h with ⟨hnumber, ⟨hmc, -⟩ | ⟨hmc, hsays⟩ | ⟨-, -, hmv⟩⟩
        · exact absurd hmc (hclerk rfl)
        · rcases hsays with ⟨⟨rfl | rfl, -⟩ | rfl, hpicture⟩ | ⟨liked, rfl⟩ | rfl
          · cases hnext
            exact ⟨hnumber, .inr (.inl ⟨hmc, .inl ⟨.inr rfl, hpicture⟩⟩)⟩
          · cases hnext
            exact ⟨hnumber, .inr (.inl ⟨hmc, .inl ⟨.inr rfl, hpicture⟩⟩)⟩
          all_goals rcases hwhy with h | h | h | h <;> cases h
        · exact absurd rfl hmv
      | waitMoney =>
        obtain rfl : k' = .cashier := of_decide_eq_true (hof _ rfl)
        rcases h with ⟨hnumber, ⟨hmc, -⟩ | ⟨hmc, hsays⟩ | ⟨-, -, hmv⟩⟩
        · exact absurd hmc (hclerk rfl)
        · rcases hsays with ⟨rfl, -⟩ | rfl | rfl
          · cases hnext
            exact ⟨hnumber, .inr (.inl ⟨hmc, .inr (.inl rfl)⟩)⟩
          all_goals rcases hwhy with h | h | h | h <;> cases h
        · exact absurd rfl hmv
      | setRejection v => cases h.2.2.1
      | setApplicationCompletion => exact absurd rfl haway
      | setPictureCompletion => exact absurd (htold (.inl rfl)) (hclerk rfl)
      | release => exact absurd (htold (.inr rfl)) (hclerk rfl)
      | _ => cases h.2.1
    | _ => exact absurd rfl haway

/-! ### What others do -/

/-- The two at a counter do not depend on what is done elsewhere. -/
theorem Fits.congr {mc' : Mode Lock CV} (hof : ∀ p, c.pc = .serve p → p.of k = true)
    (hq : q.of k = true) (h : Fits k i val free c mc SSN q mv)
    (hstate : Signaled val k i → Signaled val' k i)
    (hSSN : sharedSSN val' k i = sharedSSN val k i)
    (hpicture : k = .picture → sharedPicture val' i = sharedPicture val i) (hfree : free → free')
    (hmc : mc' = mc ∨ c.pc.away = true) : Fits k i val' free' c mc' SSN q mv := by
  have hleaves : ∀ {f f' : Prop}, (f → f') → q.leaves k i val f mv → q.leaves k i val' f' mv := by
    intro f f' hf hq'
    by_cases hk : k = .picture
    · exact Talk.leaves_congr hq' hf (hpicture hk)
    · cases q with
      | getPicture | setPicture _ | signalPicture | waitPicture =>
        exact absurd (of_decide_eq_true hq) hk
      | wait => exact ⟨hq'.1, fun heq => absurd heq hk, hq'.2.2.1, hf hq'.2.2.2⟩
      | waitPassport => exact ⟨hq'.1, hf hq'.2⟩
      | _ => exact hq'
  have harrives : q.arrives k i val SSN → q.arrives k i val' SSN := by
    intro hq'
    cases q with
    | setBusy => exact hstate hq'
    | signal =>
      show SSN = some (sharedSSN val' k i)
      rw [hSSN]
      exact hq'
    | _ => exact hq'
  by_cases haway : c.pc.away = true
  · exact (fits_away haway).mpr (hleaves hfree ((fits_away haway).mp h))
  · obtain rfl := hmc.resolve_right haway
    obtain ⟨k', myLine, money, fromLine, cSSN, pc⟩ := c
    cases pc with
    | call p => cases p with
      | acquireClerk => exact ⟨hleaves hfree h.1, h.2⟩
      | releaseLine => exact h.elim
      | _ => exact absurd rfl haway
    | serve p => cases p with
      | wait =>
        rcases h with ⟨hmc, harr, hlate⟩ | ⟨hmc, harr⟩ | ⟨hmc, hq', hmv, hnumber⟩
        · exact .inl ⟨hmc, harrives harr, hlate⟩
        · exact .inr (.inl ⟨hmc, harrives harr⟩)
        · exact .inr (.inr ⟨hmc, hq', hmv, by rw [hSSN]; exact hnumber⟩)
      | getSSN => exact ⟨h.1, h.2.1, by rw [hSSN]; exact h.2.2⟩
      | signalShow =>
        exact ⟨h.1, h.2.1, h.2.2.1, (hpicture (of_decide_eq_true (hof _ rfl))).trans h.2.2.2⟩
      | waitAnswer =>
        have heq := hpicture (of_decide_eq_true (hof _ rfl))
        unfold Fits at h ⊢
        rw [heq]
        exact h
      | signal =>
        refine ⟨?_, h.2⟩
        have hserved := h.1
        cases k with
        | picture => exact ⟨hserved.1, by rw [hpicture rfl]; exact hserved.2⟩
        | _ => exact hserved
      | setPictureCompletion | release => exact ⟨hleaves id h.1, h.2⟩
      | setApplicationCompletion => exact absurd rfl haway
      | _ => exact h
    | _ => exact absurd rfl haway

end Fits

end Nachos.Passport

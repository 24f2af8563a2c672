import Mathlib.Algebra.BigOperators.Ring.Finset
import Nachos.Lib.Mutex
import Nachos.Passport.Sound

/-!
# The passport office: there is always a line to join

A clerk goes on break only when it has read, under the line lock, that another one is
`AVAILABLE` or `BUSY`; so before the end of the day some clerk of each kind is not on break.
`pickShortestLine` reads the counts and the states one by one, and finds a shortest line of a
clerk that is not on break, as long as nobody changes them in between.

A customer that was woken in line, and finds neither itself called nor a senator present, has
released the line lock when it sets the state of its clerk. If the clerk is on break at that
moment, and another customer in the middle of its turns, that one misses a line (`Office.Kept`
is that this does not happen). The server is any that gives mutual exclusion.
-/

namespace Nachos.Passport

open Lib Lib.Monitor

set_option linter.unusedSectionVars false

/-! ### The first of the shortest -/

/-- The turns of a search before `i`, over lines that are counted and may be closed: none of
those shorter than the bound is open yet, or the one chosen is open and a shortest of them. -/
def Shortest (closed : Nat → Prop) (count : Nat → Int) (bound : Int) (i : Nat)
    (myLine lineSize : Int) : Prop :=
  (myLine = -1 ∧ lineSize = bound ∧ ∀ j < i, ¬ closed j → bound ≤ count j) ∨
    ∃ m < i, myLine = m ∧ lineSize = count m ∧ ¬ closed m ∧ count m < bound ∧
      ∀ j < i, ¬ closed j → count m ≤ count j

namespace Shortest

variable {closed : Nat → Prop} {count : Nat → Int} {bound : Int} {i n : Nat}
  {myLine lineSize : Int}

theorem zero : Shortest closed count bound 0 (-1) bound :=
  .inl ⟨rfl, rfl, fun _ hj => absurd hj (Nat.not_lt_zero _)⟩

/-- An open line that is shorter than the chosen one is chosen. -/
theorem take (h : Shortest closed count bound i myLine lineSize) (hopen : ¬ closed i)
    (hlt : count i < lineSize) : Shortest closed count bound (i + 1) i (count i) := by
  refine .inr ⟨i, Nat.lt_succ_self i, rfl, rfl, hopen, ?_, fun j hj hjopen => ?_⟩
  · rcases h with ⟨-, rfl, -⟩ | ⟨m, -, -, rfl, -, hm, -⟩
    · exact hlt
    · exact hlt.trans hm
  · rcases Nat.lt_succ_iff_lt_or_eq.mp hj with hji | rfl
    · rcases h with ⟨-, rfl, hall⟩ | ⟨m, -, -, rfl, -, -, hall⟩
      · exact hlt.le.trans (hall j hji hjopen)
      · exact hlt.le.trans (hall j hji hjopen)
    · exact le_rfl

/-- A closed line, or one that is not shorter, is passed. -/
theorem skip (h : Shortest closed count bound i myLine lineSize)
    (hskip : ¬ closed i → lineSize ≤ count i) :
    Shortest closed count bound (i + 1) myLine lineSize := by
  rcases h with ⟨hnone, rfl, hall⟩ | ⟨m, hm, hmy, rfl, hopen, hlt, hall⟩
  · refine .inl ⟨hnone, rfl, fun j hj hjopen => ?_⟩
    rcases Nat.lt_succ_iff_lt_or_eq.mp hj with hji | rfl
    · exact hall j hji hjopen
    · exact hskip hjopen
  · refine .inr ⟨m, Nat.lt_succ_of_lt hm, hmy, rfl, hopen, hlt, fun j hj hjopen => ?_⟩
    rcases Nat.lt_succ_iff_lt_or_eq.mp hj with hji | rfl
    · exact hall j hji hjopen
    · exact hskip hjopen

/-- **Where one line is open and shorter than the bound, a shortest open one is found.** -/
theorem chosen (h : Shortest closed count bound n myLine lineSize) {j : Nat} (hj : j < n)
    (hopen : ¬ closed j) (hlt : count j < bound) :
    ∃ m < n, myLine = m ∧ ¬ closed m ∧ ∀ j < n, ¬ closed j → count m ≤ count j := by
  rcases h with ⟨-, -, hall⟩ | ⟨m, hm, hmy, -, hmopen, -, hall⟩
  · exact absurd (hall j hj hopen) (not_le.mpr hlt)
  · exact ⟨m, hm, hmy, hmopen, hall⟩

end Shortest

/-! ### What the search has found -/

/-- The state of a clerk. -/
abbrev stateOf (val : MV → Int → Int) (k : Kind) (i : Nat) : Int := MV.get val (.clerkState k) i

/-- The count of one of the two lines of a clerk. -/
abbrev countOf (val : MV → Int → Int) (k : Kind) (bribe : Bool) (i : Nat) : Int :=
  MV.get val (Visit.countMV k bribe) i

/-- The lines that `pickShortestLine` has looked at, as the variables are. -/
abbrev Searched (val : MV → Int → Int) (k : Kind) (bribe : Bool) : Nat → Int → Int → Prop :=
  Shortest (fun i => stateOf val k i = ONBREAK) (countOf val k bribe) 1000

/-- Where a visit is in `pickShortestLine`, or has just returned from it. -/
def Line.searching : Line → Bool
  | .getCount _ _ _ | .getState _ _ _ _ | .getMyState _ => true
  | _ => false

/-- What a visit knows in `pickShortestLine`. -/
def Visit.searched (n : Nat) (v : Visit) (val : MV → Int → Int) : Prop :=
  match v.pc with
  | .line (.getCount i myLine lineSize) => i < n ∧ Searched val v.kind v.bribe i myLine lineSize
  | .line (.getState i myLine lineSize tempLineCount) =>
    i < n ∧ tempLineCount = countOf val v.kind v.bribe i ∧
      Searched val v.kind v.bribe i myLine lineSize
  | .line (.getMyState myLine) => ∃ lineSize, Searched val v.kind v.bribe n myLine lineSize
  | _ => True

/-- The next turn of the loop, or its end. -/
theorem Visit.searched_picked {n i : Nat} {k : Kind} {bribe : Bool} {val : MV → Int → Int}
    {myLine lineSize : Int} (hi : i ≤ n) (h : Searched val k bribe i myLine lineSize) :
    (Visit.mk k bribe (.line (picked n i myLine lineSize))).searched n val := by
  unfold picked
  split
  · rename_i hlt
    exact ⟨hlt, h⟩
  · rename_i hnot
    have hin : i = n := Nat.le_antisymm hi (not_lt.mp hnot)
    exact ⟨lineSize, hin ▸ h⟩

/-- **One more turn.** -/
theorem Visit.searched_next {n : Nat} (v : Visit) {val : MV → Int → Int} {SSN : Int} {r : Nat}
    {pc : VisitPC} (h : v.searched n val)
    (hnext : v.next n (answered n (v.request SSN) val).1 r = .at pc) :
    (Visit.mk v.kind v.bribe pc).searched n (answered n (v.request SSN) val).2 := by
  obtain ⟨k, bribe, p⟩ := v
  cases p with
  | line p => cases p with
    | acquire =>
      cases hnext
      exact searched_picked (Nat.zero_le n) .zero
    | getCount i myLine lineSize =>
      cases hnext
      exact ⟨h.1, rfl, h.2⟩
    | getState i myLine lineSize temp =>
      obtain ⟨hi, htemp, hsearched⟩ :
        i < n ∧ temp = countOf val k bribe i ∧ Searched val k bribe i myLine lineSize := h
      subst htemp
      simp only [next, Line.next] at hnext
      split at hnext
      · rename_i hshorter
        cases hnext
        exact searched_picked hi (hsearched.take hshorter.2 hshorter.1)
      · rename_i hnot
        cases hnext
        refine searched_picked hi (hsearched.skip fun hopen => ?_)
        exact not_lt.mp fun hlt => hnot ⟨hlt, hopen⟩
    | join myLine b | leave myLine b => cases b <;> cases hnext <;> trivial
    | getMyState myLine | look myLine =>
      simp only [next, Line.next] at hnext
      split at hnext <;> cases hnext <;> trivial
    | wait myLine =>
      cases hnext
      trivial
    | release myLine => cases hnext
  | unlocked myLine p => cases p <;> cases hnext <;> trivial
  | talk myLine p =>
    have hpc : ∃ q, pc = .talk myLine q := by
      cases p <;> simp only [next, Talk.next] at hnext <;> grind
    obtain ⟨q, rfl⟩ := hpc
    trivial

/-- What was found stays so while the counts stay, and no clerk goes on break or comes back. -/
theorem Visit.searched_congr {n : Nat} {v : Visit} {val val' : MV → Int → Int}
    (h : v.searched n val)
    (hcount : ∀ i, countOf val' v.kind v.bribe i = countOf val v.kind v.bribe i)
    (hstate : ∀ i, stateOf val' v.kind i = ONBREAK ↔ stateOf val v.kind i = ONBREAK) :
    v.searched n val' := by
  have hsame : Searched val' v.kind v.bribe = Searched val v.kind v.bribe := by
    unfold Searched
    rw [funext hcount, funext fun i => propext (hstate i)]
  unfold searched at h ⊢
  rw [hsame]
  simp only [hcount]
  exact h

/-- A visit in `pickShortestLine` holds the line lock. -/
theorem Visit.held_searching {v : Visit} {p : Line} (hpc : v.pc = .line p)
    (hp : p.searching = true) (SSN : Int) :
    v.held (.lineLock v.kind) ∧ ∀ c m, v.request SSN ≠ .Wait c m := by
  obtain ⟨k, bribe, pc⟩ := v
  cases hpc
  cases p with
  | getCount i myLine lineSize | getState i myLine lineSize temp | getMyState myLine =>
    exact ⟨⟨nofun, rfl⟩, nofun⟩
  | _ => cases hp

/-- Elsewhere a visit knows nothing of the lines. -/
theorem Visit.searched_of_not {v : Visit} {n : Nat} (val : MV → Int → Int)
    (h : ∀ p, v.pc = .line p → p.searching = false) : v.searched n val := by
  obtain ⟨k, bribe, pc⟩ := v
  cases pc with
  | line p => cases p with
    | getCount i myLine lineSize | getState i myLine lineSize temp | getMyState myLine =>
      exact nomatch h _ rfl
    | _ => trivial
  | _ => trivial

/-! ### Visits of processes -/

/-- The visit that a process makes. -/
def Loc.visit : Loc → Option Visit
  | .customer ⟨_, _, .visit v⟩ => some v
  | .senator ⟨_, .visit v⟩ => some v
  | _ => none

/-- The clerk whose state is set to `BUSY` here, by a customer that has released the line lock
before. -/
def Loc.unlocked (p : Loc) : Option (Kind × Int) :=
  match p.visit with
  | some ⟨k, _, .unlocked myLine .setBusy⟩ => some (k, myLine)
  | _ => none

theorem Loc.visit_cases {p : Loc} {v : Visit} (h : p.visit = some v) :
    (∃ me past, p = .customer ⟨me, past, .visit v⟩) ∨ ∃ me, p = .senator ⟨me, .visit v⟩ := by
  cases p with
  | customer c =>
    obtain ⟨me, past, pc⟩ := c
    cases pc <;> cases h
    exact .inl ⟨me, past, rfl⟩
  | senator c =>
    obtain ⟨me, pc⟩ := c
    cases pc <;> cases h
    exact .inr ⟨me, rfl⟩
  | _ => cases h

/-- The requests and the locks of a process are those of its visit. -/
theorem Loc.visit_request {p : Loc} {v : Visit} (h : p.visit = some v) :
    (∃ SSN, p.request = v.request SSN) ∧ p.held = v.held := by
  rcases visit_cases h with ⟨me, past, rfl⟩ | ⟨me, rfl⟩
  · exact ⟨⟨_, rfl⟩, rfl⟩
  · exact ⟨⟨_, rfl⟩, rfl⟩

theorem Customer.visit_choose {c : Customer} {r : Nat} {v : Visit}
    (h : (Loc.customer (c.choose r)).visit = some v) : v.pc = .line .acquire := by
  unfold choose at h
  split at h <;> cases h
  rfl

theorem Senator.visit_choose {c : Senator} {r : Nat} {v : Visit}
    (h : (Loc.senator (c.choose r)).visit = some v) : v.pc = .line .acquire := by
  unfold choose at h
  split at h <;> cases h
  rfl

/-- **How a process comes to be at a place of a visit**: by a step of the visit, at its start,
or from the check in the line. -/
theorem Loc.visit_next {n : Nat} {p : Loc} {a : Int} {r : Nat} {w : Visit}
    (h : (p.next n a r).visit = some w) :
    (∃ v pc, p.visit = some v ∧ v.next n a r = .at pc ∧ w = { v with pc := pc }) ∨
      w.pc = .line .acquire ∨ ∃ myLine, w.pc = .unlocked myLine .setBusy := by
  cases p with
  | customer c =>
    obtain ⟨me, past, pc⟩ := c
    cases pc with
    | visit v =>
      simp only [Loc.next, Customer.next] at h
      split at h
      · rename_i pc hpc
        cases h
        exact .inl ⟨v, pc, rfl, hpc, rfl⟩
      · cases h
      · cases h
    | check p =>
      simp only [Loc.next, Customer.next] at h
      split at h
      · cases h
      · exact .inr (.inl (Customer.visit_choose h))
    | recheck k bribe myLine p =>
      simp only [Loc.next, Customer.next, Customer.rechecked] at h
      split at h
      · cases h
      · split at h
        · cases h
        · cases h
          exact .inr (.inr ⟨myLine, rfl⟩)
    | exited => cases h
    | _ =>
      simp only [Loc.next, Customer.next] at h
      split at h <;> cases h
  | senator c =>
    obtain ⟨me, pc⟩ := c
    cases pc with
    | visit v =>
      simp only [Loc.next, Senator.next] at h
      split at h
      · rename_i pc hpc
        cases h
        exact .inl ⟨v, pc, rfl, hpc, rfl⟩
      · exact .inr (.inl (Senator.visit_choose h))
      · exact .inr (.inl (Senator.visit_choose h))
    | arrive p =>
      simp only [Loc.next, Senator.next] at h
      split at h
      · cases h
      · exact .inr (.inl (Senator.visit_choose h))
    | exited => cases h
    | _ =>
      simp only [Loc.next, Senator.next] at h
      split at h <;> cases h
  | _ => cases h

/-! ### Who changes the state of a clerk -/

/-- **Under the line lock, or without it**: the second is the customer that was not called. Only
a clerk itself says that it is on break. -/
theorem Loc.sets_clerkState {p : Loc} {k : Kind} {i v : Int}
    (h : p.request = .Set (.clerkState k) i v) :
    (p.held (.lineLock k) ∧ (v ≠ ONBREAK ∨ ∃ c, p = .clerk c ∧ c.kind = k ∧ c.myLine = i ∧
        (c.pc = .call (.onBreak .setOnBreak) ∨ c.pc = .call (.onBreak .setEnd)))) ∨
      (p.unlocked = some (k, i) ∧ v = BUSY) := by
  have hvisit : ∀ w SSN, p.visit = some w → p.held = w.held →
      w.request SSN = .Set (.clerkState k) i v →
      (p.held (.lineLock k) ∧ v ≠ ONBREAK) ∨ (p.unlocked = some (k, i) ∧ v = BUSY) := by
    rintro ⟨k', bribe, pc⟩ SSN hw hheld hset
    cases pc with
    | line q => cases q with
      | join myLine b | leave myLine b =>
        obtain ⟨hx, -⟩ := Bump.request_set hset
        cases bribe <;> cases hx
      | _ => cases hset
    | unlocked myLine q => cases q with
      | setBusy =>
        cases hset
        exact .inr ⟨by rw [Loc.unlocked, hw], rfl⟩
      | release => cases hset
    | talk myLine q => cases q with
      | acquire => exact absurd hset not_set_acquireClerkLock
      | setBusy =>
        cases hset
        rw [hheld]
        exact .inl ⟨rfl, by decide⟩
      | _ => cases hset
  cases p with
  | customer c =>
    obtain ⟨me, past, pc⟩ := c
    cases pc with
    | visit w => exact (hvisit w _ rfl rfl h).imp_left (And.imp_right .inl)
    | checkIn p => cases p with
      | present b => cases (Bump.request_set h).1
      | _ => cases h
    | draw p => cases p <;> cases h
    | check p | recheck _ _ _ p => cases p with
      | goOutside b | joinLine b | goInside b | leaveLine b => cases (Bump.request_set h).1
      | _ => cases h
    | checkOut p => cases p with
      | present b | checkedOut b => cases (Bump.request_set h).1
      | _ => cases h
    | exited => cases h
  | senator c =>
    obtain ⟨me, pc⟩ := c
    cases pc with
    | visit w => exact (hvisit w _ rfl rfl h).imp_left (And.imp_right .inl)
    | draw p => cases p <;> cases h
    | arrive p => cases p with
      | joinLine b | leaveLine b | enter b => cases (Bump.request_set h).1
      | _ => cases h
    | leave p => cases p with
      | present b | checkedOut b => cases (Bump.request_set h).1
      | _ => cases h
    | exited => cases h
  | clerk c =>
    obtain ⟨k', myLine, money, fromLine, SSN, pc⟩ := c
    refine .inl ?_
    cases pc with
    | draw p => cases p <;> cases h
    | senator p => cases p <;> cases h
    | call p => cases p with
      | acquireClerk => exact absurd h not_set_acquireClerkLock
      | setSignaled =>
        cases h
        exact ⟨rfl, .inl (by decide)⟩
      | onBreak p =>
        cases p <;> cases h
        · exact ⟨rfl, .inr ⟨_, rfl, rfl, rfl, .inl rfl⟩⟩
        · exact ⟨rfl, .inl (by decide)⟩
        · exact ⟨rfl, .inr ⟨_, rfl, rfl, rfl, .inr rfl⟩⟩
      | _ => cases h
    | serve p => cases p <;> cases h
    | exited => cases h
  | manager pc =>
    cases pc with
    | exited => cases h
    | senators p | lines _ p | wakeUp _ p | endOfDay p | wakeAll _ p => cases p <;> cases h
  | stopPass done => cases done <;> cases h

/-- `THEEND` is set, and never taken back. -/
theorem Loc.sets_THEEND {p : Loc} {i v : Int} (h : p.request = .Set .THEEND i v) : v = 1 := by
  have hwriter := p.writtenBy h
  cases p with
  | manager pc =>
    cases pc with
    | exited => cases h
    | senators p | lines _ p | wakeUp _ p | endOfDay p | wakeAll _ p =>
      cases p <;> cases h <;> rfl
  | stopPass done => cases done <;> cases h
  | _ => exact nomatch hwriter

/-! ### Breaks -/

/-- What a clerk knows that goes on break, or ends its day. -/
def Clerk.breaks (n : Nat) (c : Clerk) (val : MV → Int → Int) : Prop :=
  match c.pc with
  | .call (.onBreak (.getState i)) => i < n
  | .call (.onBreak .setOnBreak) =>
    ∃ i < n, (i : Int) ≠ c.myLine ∧ stateOf val c.kind i ≠ ONBREAK
  | .call (.onBreak .setEnd) => MV.THEEND.get val 0 ≠ 0
  | _ => True

/-- **A clerk goes on break when it has read of another one that is not**, and ends its day when
it has read that the day is over. -/
theorem Clerk.breaks_next {n : Nat} (hn : 0 < n) (c : Clerk) {val : MV → Int → Int} {r : Nat}
    (h : c.breaks n val) :
    (c.next n (answered n c.request val).1 r).breaks n (answered n c.request val).2 := by
  obtain ⟨k, myLine, money, fromLine, SSN, pc⟩ := c
  cases pc with
  | draw p => cases p <;> trivial
  | senator p => cases p with
    | release waiting => cases waiting <;> trivial
    | _ => trivial
  | call p => cases p with
    | onBreak p => cases p with
      | getTHEEND =>
        simp only [next, nextCall, Break.next]
        split_ifs with hend
        · exact hend
        · exact hn
      | getState i =>
        simp only [next, nextCall, Break.next]
        split_ifs with hother hgo hnext
        · -- the state that was read is not `ONBREAK`
          have hread : stateOf val k i = AVAILABLE ∨ stateOf val k i = BUSY := hother.2
          have hopen : stateOf val k i ≠ ONBREAK := by
            rcases hread with hread | hread
            · rw [hread]
              decide
            · rw [hread]
              decide
          exact ⟨i, h, hother.1, hopen⟩
        · trivial
        · exact hnext
        · trivial
      | getTHEENDBack =>
        simp only [next, nextCall, Break.next]
        split_ifs with hend
        · exact hend
        · trivial
      | _ => trivial
    | getBribeLineCount | getLineCount =>
      simp only [next, nextCall]
      split <;> trivial
    | _ => trivial
  | serve p =>
    simp only [next]
    split <;> trivial
  | exited => trivial

/-- What it knows stays so while no clerk goes on break, and the day goes on. -/
theorem Clerk.breaks_congr {n : Nat} {c : Clerk} {val val' : MV → Int → Int} (h : c.breaks n val)
    (hstate : c.pc = .call (.onBreak .setOnBreak) → ∀ i, stateOf val c.kind i ≠ ONBREAK →
      stateOf val' c.kind i ≠ ONBREAK)
    (hend : MV.THEEND.get val 0 ≠ 0 → MV.THEEND.get val' 0 ≠ 0) : c.breaks n val' := by
  obtain ⟨k, myLine, money, fromLine, SSN, pc⟩ := c
  cases pc with
  | call p => cases p with
    | onBreak p => cases p with
      | getState i => exact h
      | setOnBreak =>
        obtain ⟨i, hi, hne, hopen⟩ := h
        exact ⟨i, hi, hne, hstate rfl i hopen⟩
      | setEnd => exact hend h
      | _ => trivial
    | _ => trivial
  | _ => trivial

/-! ### The office, over any server that gives mutual exclusion -/

/-- A variable stays, or it is the one that is written. -/
theorem get_answered_cases (n : Nat) (q : Request) (x : MV) (val : MV → Int → Int) (i : Int) :
    x.get (answered n q val).2 i = x.get val i ∨
      ∃ v, q = .Set x i v ∧ x.get (answered n q val).2 i = v := by
  cases q with
  | Set y j v =>
    by_cases hyx : y = x
    · subst hyx
      by_cases hij : i = j
      · subst hij
        by_cases hrange : 0 ≤ i ∧ i < y.size
        · exact .inr ⟨v, rfl, get_set_self n hrange⟩
        · -- writing outside of the array changes nothing
          have hkept : (answered n (.Set y i v) val).2 = val := if_neg hrange
          rw [hkept]
          exact .inl rfl
      · exact .inl (get_set_of_index_ne n hij)
    · exact .inl (get_set_of_ne n fun hxy => hyx hxy.symm)
  | _ => exact .inl rfl

/-- **No clerk is brought back from its break behind the lock's back**: where a customer that
has released the line lock sets the state of a clerk, the clerk is not on break, or nobody holds
the lock. -/
def Kept {T : Type} (s : State T) : Act T Lock CV → Prop
  | .ask t _ => ∀ p ∈ (s.loc t).unlocked,
      MV.get s.val (.clerkState p.1) p.2 ≠ ONBREAK ∨ s.owner (.lineLock p.1) = none
  | _ => True

instance {T : Type} [DecidableEq T] (s : State T) (e : Act T Lock CV) : Decidable (Kept s e) :=
  match e with
  | .ask t _ => inferInstanceAs (Decidable (∀ p ∈ (s.loc t).unlocked,
      MV.get s.val (.clerkState p.1) p.2 ≠ ONBREAK ∨ s.owner (.lineLock p.1) = none))
  | .grant _ _ => isTrue trivial
  | .prefer _ _ => isTrue trivial

namespace Office

variable {T : Type} [DecidableEq T] (o : Office T)

/-- The next event, at a server that gives mutual exclusion. -/
def Serve : State T → Act T Lock CV → State T → Prop := (program o.CLERKCOUNT).Serve

theorem CLERKCOUNT_pos : 0 < o.CLERKCOUNT := by
  unfold CLERKCOUNT
  split <;> decide

/-- **What holds of every state**: the server agrees with the programs on the locks, the counts
count, some clerk of each kind is not on break while the day goes on, and those who choose a line
or a break know what they have read. -/
structure Lined [Fintype T] (s : State T) : Prop where
  locked : Locked (program o.CLERKCOUNT) Loc.held CV.lock s
  known : Known (program o.CLERKCOUNT) Loc.claim s
  tallied : Tallied MV.Counted weight s
  joinable : MV.THEEND.get s.val 0 = 0 →
    ∀ k, ∃ i < o.CLERKCOUNT, stateOf s.val k i ≠ ONBREAK
  searched : ∀ t v, (s.loc t).visit = some v → v.searched o.CLERKCOUNT s.val
  breaks : ∀ t c, s.loc t = .clerk c → c.breaks o.CLERKCOUNT s.val

end Office

section Lined

variable {T : Type} [DecidableEq T] [Fintype T] {o : Office T} {s s' : State T}

theorem Process.start_visit (p : Process) : p.start.visit = none := by
  cases p <;> rfl

theorem Office.lined_init : o.Lined o.init where
  locked := sound_init.locked
  known := sound_init.known
  tallied := sound_init.tallied
  joinable _ k := by
    refine ⟨0, o.CLERKCOUNT_pos, ?_⟩
    show (if (0 : Int) ≤ 0 ∧ (0 : Int) < (MAXCLERKS : Nat) then BUSY else 0) ≠ ONBREAK
    decide
  searched t v hv := by
    cases (o.process t).start_visit.symm.trans hv
  breaks t c hc := by
    have hloc : (o.process t).start = .clerk c := hc
    cases hp : o.process t <;> rw [hp] at hloc <;> cases hloc
    trivial

/-- The state of a clerk is changed past the line lock by a customer only that was not called. -/
theorem Office.Lined.set_outside (h : o.Lined s) {t u : T} {k : Kind} {i v : Int} (hut : t ≠ u)
    (hheld : (s.loc t).held (.lineLock k)) (hwait : ∀ c m, (s.loc t).request ≠ .Wait c m)
    (hset : (s.loc u).request = .Set (.clerkState k) i v) :
    (s.loc u).unlocked = some (k, i) ∧ v = BUSY := by
  rcases Loc.sets_clerkState hset with ⟨huheld, -⟩ | hunlocked
  · have hsame := h.locked.holds_unique ⟨hheld, .inr fun c => hwait c _⟩
      ⟨huheld, .inr fun c hreq => nomatch hset.symm.trans hreq⟩
    exact absurd hsame hut
  · exact hunlocked

/-- The counts of the lines are not changed past it. -/
theorem Office.Lined.count_inside (h : o.Lined s) {t u : T} {k : Kind} (bribe : Bool) {i v : Int}
    (hut : t ≠ u) (hheld : (s.loc t).held (.lineLock k))
    (hwait : ∀ c m, (s.loc t).request ≠ .Wait c m) :
    (s.loc u).request ≠ .Set (Visit.countMV k bribe) i v := by
  intro hset
  have hguard : (Visit.countMV k bribe).guard = some (.lineLock k) := by cases bribe <;> rfl
  have hsame := h.locked.holds_unique ⟨hheld, .inr fun c => hwait c _⟩
    ⟨(s.loc u).writes hset hguard, .inr fun c hreq => nomatch hset.symm.trans hreq⟩
  exact hut hsame

section Moved

variable (h : o.Lined s) {u : T} {r : Nat}
  (hloc : s'.loc = Function.update s.loc u
    ((s.loc u).next o.CLERKCOUNT (answered o.CLERKCOUNT (s.loc u).request s.val).1 r))
  (hval : s'.val = (answered o.CLERKCOUNT (s.loc u).request s.val).2)

include hval in
/-- The end of the day is not taken back. -/
theorem Office.ended_moved (hend : MV.THEEND.get s.val 0 ≠ 0) : MV.THEEND.get s'.val 0 ≠ 0 := by
  rw [hval]
  rcases get_answered_cases o.CLERKCOUNT (s.loc u).request .THEEND s.val 0 with hsame | ⟨v, hset, hv⟩
  · rw [hsame]
    exact hend
  · rw [hv, Loc.sets_THEEND hset]
    decide

include h hval

/-- **The last clerk does not go on break.** -/
theorem Office.joinable_moved (hend : MV.THEEND.get s'.val 0 = 0) (k : Kind) :
    ∃ i < o.CLERKCOUNT, stateOf s'.val k i ≠ ONBREAK := by
  have hday : MV.THEEND.get s.val 0 = 0 := by
    by_contra hnot
    exact ended_moved hval hnot hend
  obtain ⟨i, hi, hopen⟩ := h.joinable hday k
  rw [hval]
  rcases get_answered_cases o.CLERKCOUNT (s.loc u).request (.clerkState k) s.val i with
    hsame | ⟨v, hset, hv⟩
  · refine ⟨i, hi, ?_⟩
    rw [stateOf, hsame]
    exact hopen
  · rcases Loc.sets_clerkState hset with ⟨-, hne | ⟨c, hc, rfl, hmy, hpc | hpc⟩⟩ | ⟨-, rfl⟩
    · refine ⟨i, hi, ?_⟩
      rw [stateOf, hv]
      exact hne
    · -- it has read of another clerk that is not on break
      have hbreaks := h.breaks u c hc
      unfold Clerk.breaks at hbreaks
      rw [hpc] at hbreaks
      obtain ⟨j, hj, hjmy, hjopen⟩ := hbreaks
      refine ⟨j, hj, ?_⟩
      rcases get_answered_cases o.CLERKCOUNT (s.loc u).request (.clerkState c.kind) s.val j with
        hsame | ⟨w, hset', -⟩
      · rw [stateOf, hsame]
        exact hjopen
      · injection hset.symm.trans hset' with _ hij
        exact absurd (hij.symm.trans hmy.symm) hjmy
    · have hbreaks := h.breaks u c hc
      unfold Clerk.breaks at hbreaks
      rw [hpc] at hbreaks
      exact absurd hday hbreaks
    · refine ⟨i, hi, ?_⟩
      rw [stateOf, hv]
      decide

include hloc

theorem Office.breaks_moved {t : T} {c : Clerk} (hc : s'.loc t = .clerk c) :
    c.breaks o.CLERKCOUNT s'.val := by
  by_cases htu : t = u
  · subst htu
    rw [hloc, Function.update_self] at hc
    cases hp : s.loc t with
    | clerk d =>
      rw [hp] at hc hval
      cases hc
      rw [hval]
      exact d.breaks_next o.CLERKCOUNT_pos (h.breaks t d hp)
    | _ =>
      rw [hp] at hc
      cases hc
  · rw [hloc, Function.update_of_ne htu] at hc
    refine Clerk.breaks_congr (h.breaks t c hc) (fun hpc i hopen => ?_) (ended_moved hval)
    rw [hval]
    rcases get_answered_cases o.CLERKCOUNT (s.loc u).request (.clerkState c.kind) s.val i with
      hsame | ⟨v, hset, hv⟩
    · rw [stateOf, hsame]
      exact hopen
    · have hheld : (s.loc t).held (.lineLock c.kind) ∧ ∀ d m, (s.loc t).request ≠ .Wait d m := by
        rw [hc]
        obtain ⟨k, myLine, money, fromLine, SSN, pc⟩ := c
        cases hpc
        exact ⟨rfl, nofun⟩
      rw [stateOf, hv, (h.set_outside htu hheld.1 hheld.2 hset).2]
      decide

/-- **What was found stays so**, while no clerk is brought back behind the lock's back. -/
theorem Office.searched_moved
    (hkept : (∃ r, Kept s (.ask u r)) ∨ ∀ x i v, (s.loc u).request ≠ .Set x i v) {t : T} {v : Visit}
    (hv : (s'.loc t).visit = some v) : v.searched o.CLERKCOUNT s'.val := by
  by_cases htu : t = u
  · subst htu
    rw [hloc, Function.update_self] at hv
    rcases Loc.visit_next hv with ⟨w, pc, hw, hnext, rfl⟩ | hpc | ⟨myLine, hpc⟩
    · obtain ⟨⟨SSN, hreq⟩, -⟩ := Loc.visit_request hw
      rw [hval]
      rw [hreq] at hnext ⊢
      exact w.searched_next (h.searched t w hw) hnext
    · refine Visit.searched_of_not _ fun p hp => ?_
      cases hpc.symm.trans hp
      rfl
    · exact Visit.searched_of_not _ fun p hp => nomatch hpc.symm.trans hp
  · rw [hloc, Function.update_of_ne htu] at hv
    by_cases hsearching : ∃ p, v.pc = .line p ∧ p.searching = true
    · obtain ⟨p, hpc, hp⟩ := hsearching
      obtain ⟨⟨SSN, hreq⟩, hholds⟩ := Loc.visit_request hv
      obtain ⟨hheld, hwait⟩ := Visit.held_searching hpc hp SSN
      rw [← hholds] at hheld
      rw [← hreq] at hwait
      refine Visit.searched_congr (h.searched t v hv) (fun i => ?_) fun i => ?_
      · rw [hval]
        exact get_answered _ _ _ _ fun j w => h.count_inside v.bribe htu hheld hwait
      · rw [hval]
        rcases get_answered_cases o.CLERKCOUNT (s.loc u).request (.clerkState v.kind) s.val i with
          hsame | ⟨w, hset, hw⟩
        · rw [stateOf, hsame]
        · obtain ⟨hunlocked, rfl⟩ := h.set_outside htu hheld hwait hset
          have hopen : stateOf s.val v.kind i ≠ ONBREAK := by
            rcases hkept with ⟨r, hkept⟩ | hnot
            · rcases hkept _ hunlocked with hopen | hfree
              · exact hopen
              · have howner := (h.locked.owner _ t).mpr ⟨hheld, .inr fun c => hwait c _⟩
                cases howner.symm.trans hfree
            · exact absurd hset (hnot _ _ _)
          rw [stateOf, hw]
          exact iff_of_false (by decide) hopen
    · refine Visit.searched_of_not _ fun p hpc => ?_
      exact Bool.eq_false_iff.mpr fun hp => hsearching ⟨p, hpc, hp⟩

end Moved

/-- **It goes on**, through every event that keeps the clerks on their breaks. -/
theorem Office.lined_serve (h : o.Lined s) {e : Act T Lock CV} (hkept : Kept s e)
    (hs : o.Serve s e s') : o.Lined s' := by
  have hlocked := locked_serve (discipline _) h.locked hs
  have hknown := known_serve (claims _) h.locked h.known hs
  have htallied := tallied_serve (tallies _) h.locked h.known h.tallied hs
  rcases serve_moves (discipline _) h.locked hs with ⟨hloc, hval⟩ | ⟨u, r, hloc, hval, hwhy⟩
  · refine ⟨hlocked, hknown, htallied, ?_, ?_, ?_⟩
    · rw [hval]
      exact h.joinable
    · rw [hloc, hval]
      exact h.searched
    · rw [hloc, hval]
      exact h.breaks
  · refine ⟨hlocked, hknown, htallied, joinable_moved h hval, fun t v => ?_,
      fun t c => breaks_moved h hloc hval⟩
    refine searched_moved h hloc hval ?_
    rcases hwhy with ⟨hasker, -⟩ | ⟨l, -, hreq | ⟨c, hreq⟩⟩
    · cases e with
      | ask t r =>
        cases hasker
        exact .inl ⟨r, hkept⟩
      | _ => cases hasker
    · exact .inr fun x i w hset => nomatch hreq.symm.trans hset
    · exact .inr fun x i w hset => nomatch hreq.symm.trans hset

theorem Office.lined (h : Reachable (Restrict o.Serve Kept) o.init s) : o.Lined s :=
  h.invariant lined_init fun _ _ _ hs hstep => lined_serve hs hstep.2 hstep.1

/-- Fewer than 1000 people are in each line of the kind. -/
def FewInLine (s : State T) (k : Kind) : Prop :=
  ∀ bribe (i : Nat), i < MAXCLERKS →
    (Finset.univ.filter fun t => (s.loc t).inLine (Visit.countMV k bribe) i = true).card < 1000

/-- **There is a line to join**: when the line lock is free some clerk of the kind is not on
break; and who returns from `pickShortestLine` holds the lock, with the number of a clerk that
is not on break, and of the shortest line among these. -/
def Office.LineToJoin (o : Office T) (s : State T) (k : Kind) : Prop :=
  (s.owner (.lineLock k) = none → ∃ i < o.CLERKCOUNT, stateOf s.val k i ≠ ONBREAK) ∧
    ∀ t v myLine, (s.loc t).visit = some v → v.kind = k → v.pc = .line (.getMyState myLine) →
      s.owner (.lineLock k) = some t ∧ ∃ i < o.CLERKCOUNT, myLine = i ∧
        stateOf s.val k i ≠ ONBREAK ∧ ∀ j < o.CLERKCOUNT, stateOf s.val k j ≠ ONBREAK →
          countOf s.val k v.bribe i ≤ countOf s.val k v.bribe j

/-- The counts are the numbers of those in line. -/
theorem Office.Lined.count_lt (h : o.Lined s) {k : Kind} (hfew : FewInLine s k) (bribe : Bool)
    {i : Nat} (hi : i < MAXCLERKS) : countOf s.val k bribe i < 1000 := by
  have hrange : (0 : Int) ≤ i ∧ (i : Int) < (Visit.countMV k bribe).size := by
    cases bribe <;> exact ⟨Int.natCast_nonneg i, Int.ofNat_lt.mpr hi⟩
  have hcounted : (Visit.countMV k bribe).Counted i := by
    cases bribe <;> exact ⟨Int.natCast_nonneg i, Int.ofNat_lt.mpr hi⟩
  have hweight : ∀ t, weight (Visit.countMV k bribe) i (s.loc t) =
      if (s.loc t).inLine (Visit.countMV k bribe) i = true then 1 else 0 := fun t => by
    cases bribe <;> rfl
  have hcount : countOf s.val k bribe i = s.val (Visit.countMV k bribe) i := if_pos hrange
  rw [hcount, h.tallied _ i hcounted, Finset.sum_congr rfl fun t _ => hweight t, Finset.sum_boole]
  exact Int.ofNat_lt.mpr (hfew bribe i hi)

/-- **There is always a line to join**, before the end of the day, with fewer than 1000 people
in line, and while no clerk is brought back from its break behind the lock's back. -/
theorem Office.line_to_join (h : Reachable (Restrict o.Serve Kept) o.init s)
    (hday : MV.THEEND.get s.val 0 = 0) {k : Kind} (hfew : FewInLine s k) : o.LineToJoin s k := by
  have hs := lined h
  refine ⟨fun _ => hs.joinable hday k, ?_⟩
  rintro t ⟨k', bribe, pc⟩ myLine hv rfl rfl
  obtain ⟨⟨SSN, hreq⟩, hholds⟩ := Loc.visit_request hv
  obtain ⟨hheld, hwait⟩ := Visit.held_searching (v := ⟨k', bribe, .line (.getMyState myLine)⟩) rfl
    rfl SSN
  rw [← hholds] at hheld
  rw [← hreq] at hwait
  refine ⟨(hs.locked.owner _ t).mpr ⟨hheld, .inr fun c => hwait c _⟩, ?_⟩
  obtain ⟨lineSize, hsearched⟩ := hs.searched t _ hv
  obtain ⟨j, hj, hopen⟩ := hs.joinable hday k'
  have hmax : o.CLERKCOUNT ≤ MAXCLERKS := by
    unfold CLERKCOUNT
    split <;> decide
  exact hsearched.chosen hj hopen (hs.count_lt hfew bribe (hj.trans_le hmax))

end Lined

/-! ### Days that are computed -/

section Computed

/-- One customer, and one clerk of each kind. -/
def quietDay : Office (Fin 1) where
  process _ := .customer 0 0
  STARTPASSPORT := false
  manager_unique _ _ _ _ := Subsingleton.elim _ _

/-- The customer checks in, and looks for the shortest line of the picture clerks. -/
def looksForLine : List (Act (Fin 1) Lock CV) :=
  [.ask 0 0, .grant .managerLock 0, .ask 0 0, .ask 0 0, .ask 0 0,
    .ask 0 0, .grant .SSNLock 0, .ask 0 0, .ask 0 0, .ask 0 0,
    .ask 0 0, .grant .managerLock 0, .ask 0 0, .ask 0 0,
    .ask 0 0, .grant (.lineLock .picture) 0, .ask 0 0, .ask 0 0]

theorem line_to_join_quietDay : ∃ s, Reachable (Restrict quietDay.Serve Kept) quietDay.init s ∧
    (∃ v, (s.loc 0).visit = some v ∧ v.pc = .line (.getMyState 0)) ∧
    quietDay.LineToJoin s .picture := by
  have hrun : (execute (guarded (program quietDay.CLERKCOUNT).serve Kept) quietDay.init
      looksForLine).any (fun s => MV.THEEND.get s.val 0 = 0 ∧
        ((s.loc 0).visit.any fun v => v.pc = .line (.getMyState 0)) = true) = true := by
    decide +kernel
  obtain ⟨s, hs, hin⟩ := (Option.any_eq_true _ _).mp hrun
  obtain ⟨hday, hvisit⟩ := of_decide_eq_true hin
  have hreach : Reachable (Restrict quietDay.Serve Kept) quietDay.init s :=
    reachable_of_guarded (fun _ _ _ => id) hs
  obtain ⟨v, hv, hpc⟩ := (Option.any_eq_true _ _).mp hvisit
  have hfew : FewInLine s .picture := fun bribe i hi =>
    (Finset.card_le_univ _).trans_lt (by decide)
  exact ⟨s, hreach, ⟨v, hv, of_decide_eq_true hpc⟩, Office.line_to_join hreach hday hfew⟩

instance : Strict Kind where
  force
    | .application, use => use .application
    | .picture, use => use .picture
    | .passport, use => use .passport
    | .cashier, use => use .cashier
  force_eq k use := by cases k <;> rfl

instance : Strict Lock where
  force
    | .lineLock k, use => Strict.force k fun k => use (.lineLock k)
    | .clerkLock k i, use => Strict.force k fun k => Strict.force i fun i => use (.clerkLock k i)
    | .myLineLock k, use => Strict.force k fun k => use (.myLineLock k)
    | .managerLock, use => use .managerLock
    | .SSNLock, use => use .SSNLock
  force_eq l use := by cases l <;> simp only [Strict.force_eq]

instance : Strict CV where
  force
    | .lineCV k i, use => Strict.force k fun k => Strict.force i fun i => use (.lineCV k i)
    | .bribeLineCV k i, use =>
      Strict.force k fun k => Strict.force i fun i => use (.bribeLineCV k i)
    | .clerkCV k i, use => Strict.force k fun k => Strict.force i fun i => use (.clerkCV k i)
    | .breakCV k, use => Strict.force k fun k => use (.breakCV k)
    | .outsideLineCV, use => use .outsideLineCV
    | .senatorLineCV, use => use .senatorLineCV
  force_eq c use := by cases c <;> simp only [Strict.force_eq]

/-- Of the variables only those that belong to a kind have a part to compute. -/
instance : Strict MV where
  force
    | .clerkState k, use => Strict.force k fun k => use (.clerkState k)
    | .lineCount k, use => Strict.force k fun k => use (.lineCount k)
    | .bribeLineCount k, use => Strict.force k fun k => use (.bribeLineCount k)
    | .sharedDataSSN k, use => Strict.force k fun k => use (.sharedDataSSN k)
    | .myLine k, use => Strict.force k fun k => use (.myLine k)
    | x, use => use x
  force_eq x use := by cases x <;> simp only [Strict.force_eq]

/-- The manager, two senators, a clerk of each kind, and six customers; five clerks are
expected. -/
def longDay : Office (Fin 13) where
  process t :=
    if t = 0 then .manager
    else if t = 1 ∨ t = 2 then .senator 0 1
    else if t = 3 then .clerk .application
    else if t = 4 then .clerk .picture
    else if t = 5 then .clerk .passport
    else if t = 6 then .clerk .cashier
    else .customer 0 1
  STARTPASSPORT := true
  manager_unique t u := by
    revert t u
    decide

/-- A senator goes from clerk to clerk, and out. -/
def tour (t : Fin 13) : List (Fin 13 × Nat) :=
  [(t, 22), (3, 12), (t, 10), (3, 5), (t, 17), (4, 12), (t, 10), (4, 6), (t, 5), (4, 6),
    (t, 18), (5, 12), (t, 10), (5, 8), (t, 18), (6, 12), (t, 10), (6, 6), (t, 4), (6, 4), (t, 8)]

/-- Who makes how many requests in a row. The manager's lock is twice given to somebody who came
later: to the second senator and to the manager, before the customer 7 that was woken outside. -/
def outOfOrder : List (Fin 13 × Nat) :=
  -- the first senator waits, it becomes safe, and the customer 7 goes outside
  [(3, 4), (4, 4), (5, 4), (6, 4), (1, 9), (0, 9), (7, 15)] ++ tour 1 ++
  -- the flags are taken back, and go up again for the second senator
  [(0, 62), (2, 9), (0, 61)] ++
  -- the customer comes in while it is safe for senators, and is woken in line by the broadcast
  [(7, 21), (0, 107), (7, 5)] ++ tour 2 ++
  -- the flags are taken back; the clerk goes on break, and the customer sees no flag
  [(0, 62), (3, 12), (7, 3)] ++
  -- the other four lines are joined, and the customer 12 begins to search
  [(8, 26), (9, 26), (10, 26), (11, 26), (12, 14)] ++
  -- the clerk is not on break any more, and the search ends
  [(7, 1), (12, 8)]

/-- The customer 12 is sent to the second line, where one waits; nobody does in the first. -/
theorem missed_line : ∃ s, Reachable longDay.Serve longDay.init s ∧
    MV.THEEND.get s.val 0 = 0 ∧ FewInLine s .application ∧
    ¬ longDay.LineToJoin s .application := by
  have hrun : (execute (program longDay.CLERKCOUNT).drive longDay.init
      (outOfOrder.flatMap fun p => List.replicate p.2 p.1)).any (fun s =>
        MV.THEEND.get s.val 0 = 0 ∧
        ((s.loc 12).visit.any fun v => v = ⟨.application, false, .line (.getMyState 1)⟩) = true ∧
        stateOf s.val .application 0 ≠ ONBREAK ∧
        countOf s.val .application false 0 < countOf s.val .application false 1) = true := by
    decide +kernel
  obtain ⟨s, hs, hin⟩ := (Option.any_eq_true _ _).mp hrun
  obtain ⟨hday, hvisit, hopen, hlt⟩ := of_decide_eq_true hin
  obtain ⟨v, hv, heq⟩ := (Option.any_eq_true _ _).mp hvisit
  obtain rfl := of_decide_eq_true heq
  have hfew : FewInLine s .application := fun bribe i hi =>
    (Finset.card_le_univ _).trans_lt (by decide)
  refine ⟨s, reachable_of_drive hs, hday, hfew, fun hline => ?_⟩
  obtain ⟨-, i, -, hmy, -, hmin⟩ := hline.2 12 _ 1 hv rfl rfl
  have hone : i = 1 := by omega
  subst hone
  exact absurd (hmin 0 (by decide) hopen) (not_le.mpr hlt)

end Computed

end Nachos.Passport

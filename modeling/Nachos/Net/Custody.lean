import Mathlib.Data.List.Pairwise
import Nachos.Lib.Counting
import Nachos.Net.Effects

/-!
# Custody of the waiting clients

A client whose request has not been answered stands in one queue of the server, or the
server is just working on it (it is in `hand`). `Serves` says what a piece of server code
may do to it: move it from one place to the next, or answer it. The rules below give the
moves the code of a lone server is made of.
-/

namespace Nachos.Net

theorem Sender.same_iff {a b : Sender} :
    a.same b = true ↔ a.machine = b.machine ∧ a.mailbox = b.mailbox := by
  simp [Sender.same]

theorem Sender.same_symm {a b : Sender} (h : a.same b = true) : b.same a = true := by
  rw [Sender.same_iff] at h ⊢
  exact ⟨h.1.symm, h.2.symm⟩

/-! ## Counting over a table -/

namespace Table

variable {α : Type} {t : Table α}

/-- The sum over the live entries. -/
def total (f : α → Nat) (t : Table α) : Nat := (t.entries.map fun e => e.elim 0 f).sum

theorem total_put {index : Option Nat} {a b : α} (h : t.get? index = some a) (f : α → Nat) :
    (t.put index b).total f + f a = t.total f + f b := by
  obtain ⟨i, rfl, hi⟩ := Option.bind_eq_some_iff.mp h
  exact Lib.sum_map_set (Option.join_eq_some_iff.mp hi) fun e => e.elim 0 f

theorem total_remove {index : Option Nat} {a : α} (h : t.get? index = some a) (f : α → Nat) :
    (t.remove index).total f + f a = t.total f := by
  obtain ⟨i, rfl, hi⟩ := Option.bind_eq_some_iff.mp h
  exact Lib.sum_map_set (b := none) (Option.join_eq_some_iff.mp hi) fun e => e.elim 0 f

theorem total_insert {a : α} {f : α → Nat} (hok : t.Ok) (ha : f a = 0) :
    (t.insert a).1.total f = t.total f := by
  unfold insert
  split
  · rfl
  · rename_i i m hfind
    obtain ⟨-, hclear, -, -⟩ := BitMap.find_some hfind
    split
    · simp [total, ha]
    · split
      · rename_i hlt
        -- the bit of the slot was clear, so nothing is overwritten
        have hfree : (t.get? (some i)).isSome = false := by rw [← hok.bits, hclear]
        obtain ⟨e, he⟩ : ∃ e, t.entries[i]? = some e := ⟨_, List.getElem?_eq_getElem hlt⟩
        cases e with
        | some b => simp [get?, he] at hfree
        | none =>
          have := Lib.sum_map_set (b := some a) he fun e => e.elim 0 f
          simp only [Option.elim, ha] at this
          exact this
      · rfl

end Table

/-! ## Where a client stands -/

/-- The clients in a queue; a queue of no entry is empty. -/
def Server.queue (s : Server) : Queue → List Sender
  | .lock index => (s.serverLocks.get? index).elim [] ServerLock.q
  | .CV index => (s.serverCVs.get? index).elim [] ServerCV.q

/-- The number of entries for the client in all the queues of the server. -/
def Server.places (s : Server) (x : Sender) : Nat :=
  s.serverLocks.total (fun l => l.q.countP (·.same x)) +
    s.serverCVs.total (fun cv => cv.q.countP (·.same x))

/-- The client is recorded as the owner of the lock at the index. -/
def Server.holds (s : Server) (index : Option Nat) (x : Sender) : Prop :=
  ∃ l, s.serverLocks.get? index = some l ∧ l.isOwner x = true

instance (s : Server) (index : Option Nat) (x : Sender) : Decidable (s.holds index x) :=
  decidable_of_iff ((s.serverLocks.get? index).any (·.isOwner x) = true) (Option.any_eq_true _ _)

/-- The lock that the client has when its request succeeds. -/
def Request.waitsFor : Request → Option Nat
  | .acquire lockID | .wait _ lockID => some lockID
  | _ => none

/-! ## What is seen of the code -/

/-- The client that is answered. -/
def Out.answerTo : Out → Option Sender
  | .mail _ (.answer c _) => some c
  | _ => none

/-- The client that is told success. -/
def Out.grantTo : Out → Option Sender
  | .mail _ (.answer c a) => if a.status then some c else none
  | _ => none

/-- Some answer goes to the mailbox of the client. -/
def answered (out : List Out) (x : Sender) : Bool := out.any fun o => o.answerTo.any (·.same x)

/-- Some success goes to the mailbox of the client. -/
def granted (out : List Out) (x : Sender) : Bool := out.any fun o => o.grantTo.any (·.same x)

/-- The number of answers to one request. -/
def answersTo (c : Sender) (out : List Out) : Nat := out.countP fun o => decide (o.answerTo = some c)

/-- The requests that are still not answered. -/
def unanswered (out : List Out) (B : List (Sender × Request)) : List (Sender × Request) :=
  B.filter fun b => !answered out b.1

/-- Who entered the queue, in order. -/
def entered (queue : Queue) (out : List Out) : List Sender :=
  out.filterMap fun
    | .enter queue' c => if queue' = queue then some c else none
    | _ => none

/-- Who left the queue, in order. -/
def left (queue : Queue) (out : List Out) : List Sender :=
  out.filterMap fun
    | .leave queue' c => if queue' = queue then some c else none
    | _ => none

section Outs

variable {o₁ o₂ out : List Out} {B : List (Sender × Request)} {x : Sender}

theorem answered_append : answered (o₁ ++ o₂) x = (answered o₁ x || answered o₂ x) :=
  List.any_append

theorem granted_append : granted (o₁ ++ o₂) x = (granted o₁ x || granted o₂ x) :=
  List.any_append

theorem answersTo_append (c : Sender) : answersTo c (o₁ ++ o₂) = answersTo c o₁ + answersTo c o₂ :=
  List.countP_append

theorem entered_append (queue : Queue) :
    entered queue (o₁ ++ o₂) = entered queue o₁ ++ entered queue o₂ :=
  List.filterMap_append

theorem left_append (queue : Queue) : left queue (o₁ ++ o₂) = left queue o₁ ++ left queue o₂ :=
  List.filterMap_append

theorem unanswered_append : unanswered (o₁ ++ o₂) B = unanswered o₂ (unanswered o₁ B) := by
  simp only [unanswered, List.filter_filter, answered_append, Bool.not_or]
  exact List.filter_congr fun b _ => Bool.and_comm _ _

theorem mem_unanswered {b : Sender × Request} :
    b ∈ unanswered out B ↔ b ∈ B ∧ answered out b.1 = false := by
  simp [unanswered, List.mem_filter]

theorem answered_iff : answered out x = true ↔
    ∃ o ∈ out, ∃ c, o.answerTo = some c ∧ c.same x = true := by
  simp [answered, List.any_eq_true, Option.any_eq_true]

theorem granted_iff : granted out x = true ↔
    ∃ o ∈ out, ∃ c, o.grantTo = some c ∧ c.same x = true := by
  simp [granted, List.any_eq_true, Option.any_eq_true]

theorem answerTo_of_grantTo {o : Out} {c : Sender} (h : o.grantTo = some c) :
    o.answerTo = some c := by
  cases o with
  | mail dst body =>
    cases body with
    | answer c' a =>
      simp only [Out.grantTo] at h
      split at h
      · exact h
      · cases h
    | client | request | reply => cases h
  | exec | nested | enter | leave | crash => cases h

theorem answered_of_granted (h : granted out x = true) : answered out x = true := by
  obtain ⟨o, ho, c, hc, hsame⟩ := granted_iff.mp h
  exact answered_iff.mpr ⟨o, ho, c, answerTo_of_grantTo hc, hsame⟩

/-- Code that answers nobody. -/
def Silent (out : List Out) : Prop := ∀ o ∈ out, o.answerTo = none

theorem Silent.answered (h : Silent out) (x : Sender) : answered out x = false := by
  rw [← Bool.not_eq_true, answered_iff]
  rintro ⟨o, ho, c, hc, -⟩
  rw [h o ho] at hc
  cases hc

theorem Silent.granted (h : Silent out) (x : Sender) : granted out x = false := by
  rw [← Bool.not_eq_true]
  intro hgranted
  cases (h.answered x).symm.trans (answered_of_granted hgranted)

theorem Silent.unanswered (h : Silent out) (B : List (Sender × Request)) : unanswered out B = B :=
  List.filter_eq_self.mpr fun b _ => by rw [h.answered, Bool.not_false]

theorem Silent.answersTo (h : Silent out) (c : Sender) : answersTo c out = 0 := by
  refine List.countP_eq_zero.mpr fun o ho => ?_
  rw [h o ho]
  simp

end Outs

/-! ## Custody -/

/-- No two entries are of the same client. -/
def Apart (B : List (Sender × Request)) : Prop := B.Pairwise fun a b => a.1.same b.1 = false

theorem Apart.eq {B : List (Sender × Request)} (h : Apart B) {a b : Sender × Request}
    (ha : a ∈ B) (hb : b ∈ B) (hsame : a.1.same b.1 = true) : a = b := by
  by_contra hne
  have : Std.Symm fun a b : Sender × Request => a.1.same b.1 = false := ⟨fun a b hab => by
    rw [← Bool.not_eq_true] at hab ⊢
    exact fun hba => hab (Sender.same_symm hba)⟩
  have hfalse := List.Pairwise.forall h ha hb hne
  cases hfalse.symm.trans hsame

/-- Taking the entry of one client out. -/
theorem Apart.countP_filter {B : List (Sender × Request)} (h : Apart B) {b : Sender × Request}
    (hb : b ∈ B) (x : Sender) :
    (B.filter fun a => !b.1.same a.1).countP (·.1.same x) + (if b.1.same x then 1 else 0) =
      B.countP (·.1.same x) := by
  induction B with
  | nil => cases hb
  | cons a B ih =>
    obtain ⟨ha, hB⟩ := List.pairwise_cons.mp h
    rcases List.mem_cons.mp hb with rfl | hb
    · have hrest : (B.filter fun a => !b.1.same a.1) = B :=
        List.filter_eq_self.mpr fun c hc => by rw [ha c hc, Bool.not_false]
      rw [List.filter_cons, Sender.same_refl, Bool.not_true, if_neg Bool.false_ne_true, hrest,
        List.countP_cons]
    · have hab : b.1.same a.1 = false := by
        rw [← Bool.not_eq_true]
        exact fun hba => Bool.false_ne_true ((ha b hb).symm.trans (Sender.same_symm hba))
      rw [List.filter_cons, hab, Bool.not_false, if_pos rfl, List.countP_cons, List.countP_cons]
      have := ih hB hb
      omega

/-- The requests `B` are not answered yet; each stands in one queue, but for those of the
clients in `hand`. -/
structure Custody (s : Server) (B : List (Sender × Request)) (hand : List Sender) : Prop where
  others : s.others = []
  tables : s.TablesOk
  free : ∀ lockID l, s.serverLocks.get? lockID = some l → l.state = .FREE → l.q = []
  lockQ : ∀ lockID l, s.serverLocks.get? lockID = some l → ∀ x ∈ l.q,
    ∃ r L, (x, r) ∈ B ∧ r.waitsFor = some L ∧ checkIfLockIsMineAndGetMyIndex s L = lockID
  CVQ : ∀ CVID cv, s.serverCVs.get? CVID = some cv → ∀ x ∈ cv.q,
    ∃ r L, (x, r) ∈ B ∧ r.waitsFor = some L ∧ cv.waitingLock = some L
  waiting : ∀ CVID cv, s.serverCVs.get? CVID = some cv → cv.waitingLock ≠ none → cv.q ≠ []
  placed : ∀ x, s.places x + hand.countP (·.same x) = B.countP (·.1.same x)
  apart : Apart B

/-- What a piece of code may do to the requests `B` that are not answered: it keeps the
custody, serves each queue in order, tells success to the owner of the lock, and tells
everyone it makes an owner. -/
structure Serves (s : Server) (B : List (Sender × Request)) (out : List Out) (s' : Server)
    (hand : List Sender) : Prop where
  custody : Custody s' (unanswered out B) hand
  netAddr : s'.netAddr = s.netAddr
  fifo : ∀ queue, s.queue queue ++ entered queue out = left queue out ++ s'.queue queue
  granted : ∀ c r L, (c, r) ∈ B → r.waitsFor = some L → granted out c = true →
    s'.holds (checkIfLockIsMineAndGetMyIndex s' L) c
  recorded : ∀ index x, s'.holds index x → s.holds index x ∨ Net.granted out x = true
  only : ∀ o ∈ out, ∀ c, o.answerTo = some c → ∃ r, (c, r) ∈ B
  once : ∀ c, answersTo c out ≤ 1

theorem answered_of_answerTo {out : List Out} {o : Out} {c : Sender} (ho : o ∈ out)
    (hc : o.answerTo = some c) : answered out c = true :=
  answered_iff.mpr ⟨o, ho, c, hc, Sender.same_refl c⟩

theorem answered_of_answersTo {out : List Out} {c : Sender} (h : 0 < answersTo c out) :
    answered out c = true := by
  obtain ⟨o, ho, hc⟩ := List.countP_pos_iff.mp h
  exact answered_of_answerTo ho (of_decide_eq_true hc)

theorem myLock_congr {s s' : Server} (h : s'.netAddr = s.netAddr) (L : Nat) :
    checkIfLockIsMineAndGetMyIndex s' L = checkIfLockIsMineAndGetMyIndex s L := by
  simp only [checkIfLockIsMineAndGetMyIndex, checkIfMineAndGetMyIndex, h]

/-! ## Composing code -/

namespace Serves

variable {s s₁ s₂ : Server} {B : List (Sender × Request)} {o₁ o₂ : List Out}
  {hand₁ hand₂ : List Sender}

/-- A second piece of code grants only what the first one left unanswered. -/
theorem mem_of_granted (h₂ : Serves s₁ (unanswered o₁ B) o₂ s₂ hand₂) (hapart : Apart B)
    {c : Sender} {r : Request} (hmem : (c, r) ∈ B) (hgranted : Net.granted o₂ c = true) :
    (c, r) ∈ unanswered o₁ B := by
  obtain ⟨o, ho, c', hc', hsame⟩ := granted_iff.mp hgranted
  obtain ⟨r', hr'⟩ := h₂.only o ho c' (answerTo_of_grantTo hc')
  have heq := hapart.eq (mem_unanswered.mp hr').1 hmem hsame
  rw [← heq]
  exact hr'

/-- Two pieces of code one after the other, when the second leaves the locks that the first
granted to their owners. -/
theorem trans (hapart : Apart B) (h₁ : Serves s B o₁ s₁ hand₁)
    (h₂ : Serves s₁ (unanswered o₁ B) o₂ s₂ hand₂)
    (hkeep : ∀ index x, Net.granted o₁ x = true → s₁.holds index x → s₂.holds index x) :
    Serves s B (o₁ ++ o₂) s₂ hand₂ where
  custody := unanswered_append ▸ h₂.custody
  netAddr := h₂.netAddr.trans h₁.netAddr
  fifo queue := by
    rw [entered_append, left_append, ← List.append_assoc, h₁.fifo queue, List.append_assoc,
      h₂.fifo queue, List.append_assoc]
  granted c r L hmem hL hgranted := by
    rw [granted_append, Bool.or_eq_true] at hgranted
    rcases hgranted with hgranted | hgranted
    · rw [myLock_congr h₂.netAddr]
      exact hkeep _ c hgranted (h₁.granted c r L hmem hL hgranted)
    · exact h₂.granted c r L (h₂.mem_of_granted hapart hmem hgranted) hL hgranted
  recorded index x hholds := by
    rw [granted_append, Bool.or_eq_true]
    rcases h₂.recorded index x hholds with hholds | hgranted
    · exact (h₁.recorded index x hholds).imp_right .inl
    · exact .inr (.inr hgranted)
  only o ho c hc := by
    rcases List.mem_append.mp ho with ho | ho
    · exact h₁.only o ho c hc
    · obtain ⟨r, hr⟩ := h₂.only o ho c hc
      exact ⟨r, (mem_unanswered.mp hr).1⟩
  once c := by
    rw [answersTo_append]
    have h1 := h₁.once c
    have h2 := h₂.once c
    by_cases hpos : 0 < answersTo c o₂
    · -- what the second piece answers, the first did not
      obtain ⟨o, ho, hc⟩ := List.countP_pos_iff.mp hpos
      obtain ⟨r, hr⟩ := h₂.only o ho c (of_decide_eq_true hc)
      have hzero : answersTo c o₁ = 0 := by
        by_contra hne
        have := answered_of_answersTo (Nat.pos_of_ne_zero hne)
        cases this.symm.trans (mem_unanswered.mp hr).2
      omega
    · omega

/-- Code that answers nobody. -/
theorem of_silent {s s' : Server} {out : List Out} {hand : List Sender} (hsilent : Silent out)
    (hcustody : Custody s' B hand) (hnetAddr : s'.netAddr = s.netAddr)
    (hfifo : ∀ queue, s.queue queue ++ entered queue out = left queue out ++ s'.queue queue)
    (hholds : ∀ index x, s'.holds index x → s.holds index x) : Serves s B out s' hand where
  custody := by
    rw [hsilent.unanswered]
    exact hcustody
  netAddr := hnetAddr
  fifo := hfifo
  granted c r L _ _ hgranted := by
    rw [hsilent.granted] at hgranted
    cases hgranted
  recorded index x hx := .inl (hholds index x hx)
  only o ho c hc := by
    rw [hsilent o ho] at hc
    cases hc
  once c := by
    rw [hsilent.answersTo]
    exact Nat.zero_le 1

/-- Code after code that answers nobody. -/
theorem after_silent (hsilent : Silent o₁) (hapart : Apart B) (h₁ : Serves s B o₁ s₁ hand₁)
    (h₂ : Serves s₁ B o₂ s₂ hand₂) : Serves s B (o₁ ++ o₂) s₂ hand₂ := by
  refine h₁.trans hapart ?_ fun index x hgranted => ?_
  · rw [hsilent.unanswered]
    exact h₂
  · rw [hsilent.granted] at hgranted
    cases hgranted

end Serves

/-! ## Moving a client -/

theorem Table.le_total {α : Type} {t : Table α} {index : Option Nat} {a : α}
    (h : t.get? index = some a) (f : α → Nat) : f a ≤ t.total f := by
  have := total_remove h f
  omega

theorem countP_same_pos {l : List Sender} {x : Sender} (h : x ∈ l) : 0 < l.countP (·.same x) :=
  List.countP_pos_iff.mpr ⟨x, h, Sender.same_refl x⟩

theorem places_pos_of_lock {s : Server} {lockID : Option Nat} {l : ServerLock} {x : Sender}
    (hl : s.serverLocks.get? lockID = some l) (hx : x ∈ l.q) : 0 < s.places x := by
  have hle := Table.le_total hl fun l => l.q.countP (·.same x)
  have hpos := countP_same_pos hx
  unfold Server.places
  omega

theorem places_pos_of_CV {s : Server} {CVID : Option Nat} {cv : ServerCV} {x : Sender}
    (hcv : s.serverCVs.get? CVID = some cv) (hx : x ∈ cv.q) : 0 < s.places x := by
  have hle := Table.le_total hcv fun cv => cv.q.countP (·.same x)
  have hpos := countP_same_pos hx
  unfold Server.places
  omega

/-- The mail of an answer. -/
def answerMail (c : Sender) (a : Answer) : Out := .mail c.machine (.answer c a)

theorem answered_answerMail {pre : List Out} (hpre : Silent pre) (c : Sender) (a : Answer)
    (x : Sender) : answered (pre ++ [answerMail c a]) x = c.same x := by
  rw [answered_append, hpre.answered]
  simp [answered, answerMail, Out.answerTo]

theorem granted_answerMail {pre : List Out} (hpre : Silent pre) (c : Sender) (a : Answer)
    (x : Sender) : granted (pre ++ [answerMail c a]) x = (a.status && c.same x) := by
  rw [granted_append, hpre.granted]
  cases h : a.status <;> simp [granted, answerMail, Out.grantTo, h]

namespace Custody

variable {s : Server} {B : List (Sender × Request)} {hand hand' : List Sender}

/-- The numbering of the pending requests is of no importance. -/
theorem renumber (h : Custody s B hand) (k : Nat) :
    Custody { s with pendingRequestCount := k } B hand :=
  ⟨h.others, ⟨h.tables.locks, h.tables.CVs, h.tables.MVs⟩, h.free, h.lockQ, h.CVQ, h.waiting,
    h.placed, h.apart⟩

/-- A client in a queue is not in hand. -/
theorem mem_of_placed (h : Custody s B hand) {B' : List (Sender × Request)}
    (hsub : ∀ b ∈ B', b ∈ B) {x : Sender} {r : Request} (hmem : (x, r) ∈ B)
    (hplaced : 0 < B'.countP (·.1.same x)) : (x, r) ∈ B' := by
  obtain ⟨b, hb, hsame⟩ := List.countP_pos_iff.mp hplaced
  have heq := h.apart.eq (hsub b hb) hmem hsame
  rw [← heq]
  exact hb

/-- The client in hand is answered. -/
theorem answer {c : Sender} {r : Request} (h : Custody s B (c :: hand)) (hmem : (c, r) ∈ B)
    {pre : List Out} (hpre : Silent pre) (a : Answer) :
    Custody s (unanswered (pre ++ [answerMail c a]) B) hand := by
  have heq : unanswered (pre ++ [answerMail c a]) B = B.filter fun b => !c.same b.1 :=
    List.filter_congr fun b _ => by rw [answered_answerMail hpre]
  have hsub : ∀ b ∈ B.filter (fun b => !c.same b.1), b ∈ B :=
    fun b hb => (List.mem_filter.mp hb).1
  have hplaced : ∀ x, s.places x + hand.countP (·.same x) =
      (B.filter fun b => !c.same b.1).countP (·.1.same x) := by
    intro x
    have hcount := h.apart.countP_filter hmem x
    have hx := h.placed x
    rw [List.countP_cons] at hx
    dsimp only at hcount
    omega
  rw [heq]
  refine ⟨h.others, h.tables, h.free, fun lockID l hl x hx => ?_, fun CVID cv hcv x hx => ?_,
    h.waiting, hplaced, List.Pairwise.filter _ h.apart⟩
  · obtain ⟨r', L, hr', hL⟩ := h.lockQ lockID l hl x hx
    have hpos := places_pos_of_lock hl hx
    exact ⟨r', L, h.mem_of_placed hsub hr' (by have := hplaced x; omega), hL⟩
  · obtain ⟨r', L, hr', hL⟩ := h.CVQ CVID cv hcv x hx
    have hpos := places_pos_of_CV hcv hx
    exact ⟨r', L, h.mem_of_placed hsub hr' (by have := hplaced x; omega), hL⟩

/-- A lock is written back, and clients move between its queue and the hand. -/
theorem putLock (h : Custody s B hand) {lockID : Option Nat} {l l' : ServerLock}
    (hl : s.serverLocks.get? lockID = some l) (hfree : l'.state = .FREE → l'.q = [])
    (hq : ∀ x ∈ l'.q, x ∈ l.q ∨ ∃ r L, (x, r) ∈ B ∧ r.waitsFor = some L ∧
      checkIfLockIsMineAndGetMyIndex s L = lockID)
    (hcount : ∀ x, l'.q.countP (·.same x) + hand'.countP (·.same x) =
      l.q.countP (·.same x) + hand.countP (·.same x)) :
    Custody (s.putLock lockID l') B hand' where
  others := h.others
  tables := ⟨h.tables.locks.put hl, h.tables.CVs, h.tables.MVs⟩
  free slot l₁ hl₁ hstate := by
    rcases Table.get?_put_cases hl₁ with ⟨-, rfl⟩ | ⟨-, hold⟩
    · exact hfree hstate
    · exact h.free slot l₁ hold hstate
  lockQ slot l₁ hl₁ x hx := by
    rcases Table.get?_put_cases hl₁ with ⟨rfl, rfl⟩ | ⟨-, hold⟩
    · rcases hq x hx with hold | hnew
      · exact h.lockQ lockID l hl x hold
      · exact hnew
    · exact h.lockQ slot l₁ hold x hx
  CVQ := h.CVQ
  waiting := h.waiting
  placed x := by
    have htotal := Table.total_put (b := l') hl fun l => l.q.countP (·.same x)
    have hx := h.placed x
    have := hcount x
    simp only [Server.places, Server.putLock] at hx ⊢
    omega
  apart := h.apart

/-- A lock with an empty queue is destroyed. -/
theorem removeLock (h : Custody s B hand) {lockID : Option Nat} {l : ServerLock}
    (hl : s.serverLocks.get? lockID = some l) (hq : l.q = []) :
    Custody { s with serverLocks := s.serverLocks.remove lockID } B hand where
  others := h.others
  tables := ⟨h.tables.locks.remove lockID, h.tables.CVs, h.tables.MVs⟩
  free slot l₁ hl₁ := h.free slot l₁ (Table.get?_remove_cases hl₁).2
  lockQ slot l₁ hl₁ := h.lockQ slot l₁ (Table.get?_remove_cases hl₁).2
  CVQ := h.CVQ
  waiting := h.waiting
  placed x := by
    have htotal := Table.total_remove hl fun l => l.q.countP (·.same x)
    have hx := h.placed x
    simp only [Server.places] at hx ⊢
    simp only [hq, List.countP_nil, Nat.add_zero] at htotal
    omega
  apart := h.apart

/-- A new lock is put into the table. -/
theorem insertLock (h : Custody s B hand) {l : ServerLock} (hq : l.q = []) :
    Custody { s with serverLocks := (s.serverLocks.insert l).1 } B hand where
  others := h.others
  tables := ⟨h.tables.locks.insert_ok l, h.tables.CVs, h.tables.MVs⟩
  free slot l₁ hl₁ hstate := by
    rcases h.tables.locks.get?_insert_cases hl₁ with rfl | hold
    · exact hq
    · exact h.free slot l₁ hold hstate
  lockQ slot l₁ hl₁ x hx := by
    rcases h.tables.locks.get?_insert_cases hl₁ with rfl | hold
    · rw [hq] at hx
      cases hx
    · exact h.lockQ slot l₁ hold x hx
  CVQ := h.CVQ
  waiting := h.waiting
  placed x := by
    have htotal := Table.total_insert (f := fun l => l.q.countP (·.same x)) h.tables.locks
      (show l.q.countP _ = 0 by rw [hq]; rfl)
    have hx := h.placed x
    simp only [Server.places] at hx ⊢
    omega
  apart := h.apart

/-- A condition variable is written back, and clients move between its queue and the hand. -/
theorem putCV (h : Custody s B hand) {CVID : Option Nat} {cv cv' : ServerCV}
    (hcv : s.serverCVs.get? CVID = some cv)
    (hq : ∀ x ∈ cv'.q, ∃ r L, (x, r) ∈ B ∧ r.waitsFor = some L ∧ cv'.waitingLock = some L)
    (hwaiting : cv'.waitingLock ≠ none → cv'.q ≠ [])
    (hcount : ∀ x, cv'.q.countP (·.same x) + hand'.countP (·.same x) =
      cv.q.countP (·.same x) + hand.countP (·.same x)) :
    Custody (s.putCV CVID cv') B hand' where
  others := h.others
  tables := ⟨h.tables.locks, h.tables.CVs.put hcv, h.tables.MVs⟩
  free := h.free
  lockQ := h.lockQ
  CVQ slot cv₁ hcv₁ x hx := by
    rcases Table.get?_put_cases hcv₁ with ⟨-, rfl⟩ | ⟨-, hold⟩
    · exact hq x hx
    · exact h.CVQ slot cv₁ hold x hx
  waiting slot cv₁ hcv₁ := by
    rcases Table.get?_put_cases hcv₁ with ⟨-, rfl⟩ | ⟨-, hold⟩
    · exact hwaiting
    · exact h.waiting slot cv₁ hold
  placed x := by
    have htotal := Table.total_put (b := cv') hcv fun cv => cv.q.countP (·.same x)
    have hx := h.placed x
    have := hcount x
    simp only [Server.places, Server.putCV] at hx ⊢
    omega
  apart := h.apart

/-- A condition variable with an empty queue is destroyed. -/
theorem removeCV (h : Custody s B hand) {CVID : Option Nat} {cv : ServerCV}
    (hcv : s.serverCVs.get? CVID = some cv) (hq : cv.q = []) :
    Custody { s with serverCVs := s.serverCVs.remove CVID } B hand where
  others := h.others
  tables := ⟨h.tables.locks, h.tables.CVs.remove CVID, h.tables.MVs⟩
  free := h.free
  lockQ := h.lockQ
  CVQ slot cv₁ hcv₁ := h.CVQ slot cv₁ (Table.get?_remove_cases hcv₁).2
  waiting slot cv₁ hcv₁ := h.waiting slot cv₁ (Table.get?_remove_cases hcv₁).2
  placed x := by
    have htotal := Table.total_remove hcv fun cv => cv.q.countP (·.same x)
    have hx := h.placed x
    simp only [Server.places] at hx ⊢
    simp only [hq, List.countP_nil, Nat.add_zero] at htotal
    omega
  apart := h.apart

/-- A new condition variable is put into the table. -/
theorem insertCV (h : Custody s B hand) {cv : ServerCV} (hq : cv.q = [])
    (hwaiting : cv.waitingLock = none) :
    Custody { s with serverCVs := (s.serverCVs.insert cv).1 } B hand where
  others := h.others
  tables := ⟨h.tables.locks, h.tables.CVs.insert_ok cv, h.tables.MVs⟩
  free := h.free
  lockQ := h.lockQ
  CVQ slot cv₁ hcv₁ x hx := by
    rcases h.tables.CVs.get?_insert_cases hcv₁ with rfl | hold
    · rw [hq] at hx
      cases hx
    · exact h.CVQ slot cv₁ hold x hx
  waiting slot cv₁ hcv₁ hne := by
    rcases h.tables.CVs.get?_insert_cases hcv₁ with rfl | hold
    · exact absurd hwaiting hne
    · exact h.waiting slot cv₁ hold hne
  placed x := by
    have htotal := Table.total_insert (f := fun cv => cv.q.countP (·.same x)) h.tables.CVs
      (show cv.q.countP _ = 0 by rw [hq]; rfl)
    have hx := h.placed x
    simp only [Server.places] at hx ⊢
    omega
  apart := h.apart

end Custody

end Nachos.Net

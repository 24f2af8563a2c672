import Nachos.Net.Integrity

/-!
# How long a lock, a condition variable or a monitor variable lives

An entry of a table counts its creates and destroys, and stays until the count is back at
zero and nobody uses it: a lock is in use while it is BUSY, a condition variable while
clients wait on it. The last of the two reasons to go can be a destroy, the release of the
lock, or the signal that takes the last client; each has to complete the destruction.

The runs are those of the requests that a server runs, at any table index. Whatever mail a
server handles, it runs such requests (`receive_handled`).
-/

namespace Nachos.Net

/-! ## Entries and their counts -/

/-- The three kinds of entry. -/
inductive Kind where
  | lock
  | CV
  | MV
  deriving DecidableEq, Repr

/-- The entry is present. -/
def Server.live (s : Server) (i : Nat) : Kind → Bool
  | .lock => (s.serverLocks.get? (some i)).isSome
  | .CV => (s.serverCVs.get? (some i)).isSome
  | .MV => (s.serverMVs.get? (some i)).isSome

/-- The lock is BUSY, or clients wait on the condition variable. -/
def Server.inUse (s : Server) (i : Nat) : Kind → Bool
  | .lock => (s.serverLocks.get? (some i)).any fun l => decide (l.state = .BUSY)
  | .CV => (s.serverCVs.get? (some i)).any fun cv => decide (cv.q ≠ [])
  | .MV => false

/-- What a server runs: a create, or a request at a table index. In between, its pending
requests change. -/
inductive Handled where
  | create (r : Request) (c : Sender)
  | run (r : Request) (index : Option Nat) (c : Sender)
  | note (pending : List PendingRequest) (count : Nat)

def Handled.act : Handled → Act
  | .create r c => serverDoCreate r c
  | .run r index c => execute r index c
  | .note pending count => .update fun s =>
    { s with pendingRequests := pending, pendingRequestCount := count }

/-- The entry that a create found or made. -/
def Handled.creates (s : Server) : Handled → Option (Kind × Nat)
  | .create (.createLock name) _ => (createLockNamed name s).2.1.map (Kind.lock, ·)
  | .create (.createCondition name) _ => (createCVNamed name s).2.1.map (Kind.CV, ·)
  | .create (.createMV name size) _ => (createMV name size s).2.1.map (Kind.MV, ·)
  | _ => none

/-- The entry that a destroy is for. -/
def Handled.destroys (s : Server) : Handled → Option (Kind × Nat)
  | .run (.destroyLock _) (some i) _ => if s.live i .lock then some (.lock, i) else none
  | .run (.destroyCondition _) (some i) _ => if s.live i .CV then some (.CV, i) else none
  | .run (.destroyMV _) (some i) _ => if s.live i .MV then some (.MV, i) else none
  | _ => none

/-- How often each entry was created and destroyed. -/
structure Counts where
  created : Kind → Nat → Nat := fun _ _ => 0
  destroyed : Kind → Nat → Nat := fun _ _ => 0

/-- Count one more for an entry. -/
def countOne (f : Kind → Nat → Nat) : Option (Kind × Nat) → Kind → Nat → Nat
  | some (k, i) => fun k' i' => if k' = k ∧ i' = i then f k' i' + 1 else f k' i'
  | none => f

def Counts.record (n : Counts) (s : Server) (h : Handled) : Counts where
  created := countOne n.created (h.creates s)
  destroyed := countOne n.destroyed (h.destroys s)

/-- A server beside the counts. -/
def LifeStep (c : Server × Counts) (h : Handled) (c' : Server × Counts) : Prop :=
  c' = ((h.act c.1).1, c.2.record c.1 h)

/-- Destroys never exceed creates. -/
def Balanced (c : Server × Counts) (h : Handled) : Prop :=
  ∀ e ∈ h.destroys c.1, c.2.destroyed e.1 e.2 < c.2.created e.1 e.2

instance (c : Server × Counts) (h : Handled) : Decidable (Balanced c h) :=
  inferInstanceAs (Decidable (∀ e ∈ _, _))

/-- No signal takes the last client, and no broadcast a client, from a condition variable
that has been destroyed as often as created. -/
def KeepsWaiter (c : Server × Counts) : Handled → Prop
  | .run (.signal _ lockID) (some i) _ => c.2.created .CV i = c.2.destroyed .CV i →
    ∀ cv ∈ c.1.serverCVs.get? (some i), cv.waitingLock = some lockID → cv.q.length ≠ 1
  | .run (.broadcast _ _) (some i) _ => c.2.created .CV i = c.2.destroyed .CV i →
    ∀ cv ∈ c.1.serverCVs.get? (some i), cv.q = []
  | _ => True

instance (c : Server × Counts) (h : Handled) : Decidable (KeepsWaiter c h) := by
  unfold KeepsWaiter
  split <;> infer_instance

/-! ## The invariant -/

/-- A lock and its creates minus its destroys. -/
def LockLife : Option ServerLock → Int → Prop
  | none, n => n = 0
  | some l, n => l.createLockCount = n ∧ 0 ≤ n ∧
    (0 < n ∨ l.state = .BUSY ∧ l.isToBeDestroyed = true)

/-- A condition variable and its creates minus its destroys. -/
def CVLife : Option ServerCV → Int → Prop
  | none, n => n = 0
  | some cv, n => cv.createCVCount = n ∧ 0 ≤ n ∧ (0 < n ∨ cv.q ≠ [])

/-- A monitor variable and its creates minus its destroys. -/
def MVLife : Option ServerMV → Int → Prop
  | none, n => n = 0
  | some m, n => m.createMVCount = n ∧ 0 < n

theorem lockLife_live {e : Option ServerLock} {n : Int} (h : LockLife e n) :
    e.isSome = true ↔ 0 < n ∨ (e.any fun l => decide (l.state = .BUSY)) = true := by
  cases e with
  | none =>
    have hzero : n = 0 := h
    simp [hzero]
  | some l => simpa using h.2.2.imp_right And.left

theorem CVLife_live {e : Option ServerCV} {n : Int} (h : CVLife e n) :
    e.isSome = true ↔ 0 < n ∨ (e.any fun cv => decide (cv.q ≠ [])) = true := by
  cases e with
  | none =>
    have hzero : n = 0 := h
    simp [hzero]
  | some cv => simpa using h.2.2

theorem MVLife_live {e : Option ServerMV} {n : Int} (h : MVLife e n) :
    e.isSome = true ↔ 0 < n ∨ false = true := by
  cases e with
  | none =>
    have hzero : n = 0 := h
    simp [hzero]
  | some m => simpa using h.2

/-- Every entry has its count, and is there for a reason. -/
structure Life (s : Server) (n : Kind → Nat → Int) : Prop where
  locks : ∀ i, LockLife (s.serverLocks.get? (some i)) (n .lock i)
  CVs : ∀ i, CVLife (s.serverCVs.get? (some i)) (n .CV i)
  MVs : ∀ i, MVLife (s.serverMVs.get? (some i)) (n .MV i)

namespace Table

variable {α : Type} {t : Table α} {P : Nat → Option α → Prop}

theorem forall_put {index : Option Nat} {a b : α} (h : ∀ i, P i (t.get? (some i)))
    (hb : t.get? index = some b) (ha : ∀ i, index = some i → P i (some a)) (i : Nat) :
    P i ((t.put index a).get? (some i)) := by
  by_cases hi : index = some i
  · subst hi
    rw [get?_put_self hb]
    exact ha i rfl
  · rw [get?_put_of_ne hi]
    exact h i

theorem forall_remove {index : Option Nat} (h : ∀ i, index ≠ some i → P i (t.get? (some i)))
    (hn : ∀ i, index = some i → P i none) (i : Nat) :
    P i ((t.remove index).get? (some i)) := by
  by_cases hi : index = some i
  · subst hi
    rw [get?_remove_self]
    exact hn i rfl
  · rw [get?_remove_of_ne hi]
    exact h i hi

/-- The counts after a create that returned the index. -/
def raised (n : Nat → Int) : Option Nat → Nat → Int
  | some i => Function.update n i (n i + 1)
  | none => n

/-- A new entry starts with a count of one. -/
theorem forall_insert {L : Option α → Int → Prop} {n : Nat → Int} (hok : t.Ok)
    (h : ∀ i, L (t.get? (some i)) (n i)) (hnone : ∀ b, L none b → b = 0) {a : α}
    (ha : L (some a) 1) (j : Nat) :
    L ((t.insert a).1.get? (some j)) (raised n (t.insert a).2.1 j) := by
  have hspec := hok.insert a
  generalize t.insert a = res at hspec ⊢
  cases hspec with
  | full => exact h j
  | @new t' i hfree hself hother hok =>
    by_cases hj : j = i
    · subst hj
      have hzero := h j
      rw [hfree] at hzero
      simp only [raised, Function.update_self, hself, hnone _ hzero]
      exact ha
    · simp only [raised, Function.update_of_ne hj, hother j hj]
      exact h j

/-- An entry that was there counts one more. -/
theorem forall_raise {L : Option α → Int → Prop} {n : Nat → Int}
    (h : ∀ i, L (t.get? (some i)) (n i)) {i : Nat} {a a' : α} (ha : t.get? (some i) = some a)
    (ha' : L (some a) (n i) → L (some a') (n i + 1)) (j : Nat) :
    L ((t.put (some i) a').get? (some j)) (raised n (some i) j) := by
  by_cases hj : some i = some j
  · cases hj
    rw [get?_put_self ha, raised, Function.update_self]
    exact ha' (ha ▸ h i)
  · rw [get?_put_of_ne hj, raised, Function.update_of_ne (fun heq => hj (by rw [heq]))]
    exact h j

end Table

/-- The count of one entry changes by `d`. -/
def shifted (n : Kind → Nat → Int) (k : Kind) (i : Nat) (d : Int) : Kind → Nat → Int :=
  Function.update n k (Function.update (n k) i (n k i + d))

/-- Code that leaves every entry its count and its reason. -/
def Lasts (n : Kind → Nat → Int) (s : Server) (_ : List Out) (s' : Server) : Prop :=
  Life s n → Life s' n

namespace Lasts

variable {n : Kind → Nat → Int} {s : Server}

theorem trans (s : Server) (o : List Out) (s₁ : Server) (o₁ : List Out) (s₂ : Server)
    (h₁ : Lasts n s o s₁) (h₂ : Lasts n s₁ o₁ s₂) : Lasts n s (o ++ o₁) s₂ :=
  fun h => h₂ (h₁ h)

theorem note (s : Server) (out : List Out) (s' : Server) (h : SameTables s s')
    (_ : ∀ o ∈ out, o.forwarded) : Lasts n s out s' := by
  refine fun hs => ⟨?_, ?_, ?_⟩
  · rw [h.locks]
    exact hs.locks
  · rw [h.CVs]
    exact hs.CVs
  · rw [h.MVs]
    exact hs.MVs

end Lasts

namespace Life

variable {s : Server} {n : Kind → Nat → Int}

/-- Another table of locks, with other counts. -/
theorem withLocks {t : Table ServerLock} {n' : Nat → Int} (h : Life s n)
    (ht : ∀ i, LockLife (t.get? (some i)) (n' i)) :
    Life { s with serverLocks := t } (Function.update n .lock n') :=
  ⟨by simpa using ht, by simpa using h.CVs, by simpa using h.MVs⟩

theorem withCVs {t : Table ServerCV} {n' : Nat → Int} (h : Life s n)
    (ht : ∀ i, CVLife (t.get? (some i)) (n' i)) :
    Life { s with serverCVs := t } (Function.update n .CV n') :=
  ⟨by simpa using h.locks, by simpa using ht, by simpa using h.MVs⟩

theorem withMVs {t : Table ServerMV} {n' : Nat → Int} (h : Life s n)
    (ht : ∀ i, MVLife (t.get? (some i)) (n' i)) :
    Life { s with serverMVs := t } (Function.update n .MV n') :=
  ⟨by simpa using h.locks, by simpa using h.CVs, by simpa using ht⟩

theorem putLock {lockID : Option Nat} {l l' : ServerLock} (h : Life s n)
    (hl : s.serverLocks.get? lockID = some l)
    (hl' : ∀ i, lockID = some i → LockLife (some l) (n .lock i) → LockLife (some l') (n .lock i)) :
    Life (s.putLock lockID l') n := by
  refine ⟨Table.forall_put (P := fun i e => LockLife e (n .lock i)) h.locks hl fun i hi => ?_, h.CVs, h.MVs⟩
  subst hi
  exact hl' i rfl (hl ▸ h.locks i)

theorem putCV {CVID : Option Nat} {cv cv' : ServerCV} (h : Life s n)
    (hcv : s.serverCVs.get? CVID = some cv)
    (hcv' : ∀ i, CVID = some i → CVLife (some cv) (n .CV i) → CVLife (some cv') (n .CV i)) :
    Life (s.putCV CVID cv') n := by
  refine ⟨h.locks,
    Table.forall_put (P := fun i e => CVLife e (n .CV i)) h.CVs hcv fun i hi => ?_, h.MVs⟩
  subst hi
  exact hcv' i rfl (hcv ▸ h.CVs i)

theorem putMV {MVID : Option Nat} {m m' : ServerMV} (h : Life s n)
    (hm : s.serverMVs.get? MVID = some m) (hcount : m'.createMVCount = m.createMVCount) :
    Life (s.putMV MVID m') n := by
  refine ⟨h.locks, h.CVs,
    Table.forall_put (P := fun i e => MVLife e (n .MV i)) h.MVs hm fun i hi => ?_⟩
  subst hi
  have hold := h.MVs i
  rw [hm] at hold
  exact ⟨hcount.trans hold.1, hold.2⟩

/-! ### Locks -/

theorem acquire (h : Life s n) (lockID : Option Nat) (c : Sender) :
    Life (serverDoAcquireLock lockID c s).1 n := by
  unfold serverDoAcquireLock
  split
  · exact h
  · rename_i l hl
    split
    · exact h
    · split
      · exact h.putLock hl fun i _ hlife => hlife
      · exact h.putLock hl fun i _ hlife =>
          ⟨hlife.1, hlife.2.1, hlife.2.2.imp_right fun hbusy => ⟨rfl, hbusy.2⟩⟩

/-- A lock that may not be used any more, with the count it is left with. -/
theorem checkLockAndDestroy {lockID : Option Nat} {l : ServerLock} (h : Life s n)
    (hl : s.serverLocks.get? lockID = some l) {n' : Nat → Int}
    (hother : ∀ i, lockID ≠ some i → n' i = n .lock i) {l' : ServerLock}
    (hl' : ∀ i, lockID = some i → l'.createLockCount = n' i ∧ 0 ≤ n' i ∧
      (0 < n' i ∨ l'.isToBeDestroyed = true)) :
    Life (Net.checkLockAndDestroy lockID (s.putLock lockID l')).1 (Function.update n .lock n') := by
  have hget : (s.putLock lockID l').serverLocks.get? lockID = some l' := Table.get?_put_self hl
  have hrest : ∀ i, lockID ≠ some i →
      LockLife ((s.serverLocks.put lockID l').get? (some i)) (n' i) := by
    intro i hi
    rw [Table.get?_put_of_ne hi, hother i hi]
    exact h.locks i
  unfold Net.checkLockAndDestroy
  simp only [hget]
  split
  · rename_i hready
    simp only [Bool.and_eq_true, decide_eq_true_eq] at hready
    refine h.withLocks (Table.forall_remove (P := fun i e => LockLife e (n' i)) hrest
      fun i hi => ?_)
    exact (hl' i hi).1.symm.trans hready.2
  · rename_i hready
    refine h.withLocks fun i => ?_
    by_cases hi : lockID = some i
    · subst hi
      obtain ⟨hcount, hle, hreason⟩ := hl' i rfl
      rw [Table.get?_put_self hl]
      refine ⟨hcount, hle, ?_⟩
      by_cases hpos : 0 < n' i
      · exact .inl hpos
      · have hflag := hreason.resolve_left hpos
        refine .inr ⟨?_, hflag⟩
        cases hstate : l'.state with
        | BUSY => rfl
        | FREE =>
          have hzero : l'.createLockCount = 0 := by omega
          simp [hflag, hstate, hzero] at hready
    · exact hrest i hi

theorem release (h : Life s n) (lockID : Option Nat) (c : Sender) :
    Life (serverDoReleaseLock lockID c s).1 n := by
  unfold serverDoReleaseLock
  split
  · exact h
  · rename_i l hl
    split
    · split
      · exact h.putLock hl fun i _ hlife => hlife
      · rw [← Function.update_eq_self Kind.lock n]
        refine h.checkLockAndDestroy hl (fun _ _ => rfl) fun i hi => ?_
        subst hi
        have hlife := h.locks i
        rw [hl] at hlife
        exact ⟨hlife.1, hlife.2.1, hlife.2.2.imp_right And.right⟩
    · exact h

/-- The acquires and releases that a server starts for waiting clients. -/
theorem nested (n : Kind → Nat → Int) {r : Request} (hr : r.nestable = true) (c : Sender) :
    (serve c r).Meets (Lasts n) := by
  obtain ⟨id, hid⟩ : ∃ id, r.id = some id := by
    cases r <;> first | exact ⟨_, rfl⟩ | cases hr
  refine .serve Lasts.trans Lasts.note hid c fun index s h => ?_
  cases r with
  | acquire lockID => exact h.acquire index c
  | release lockID => exact h.release index c
  | _ => cases hr

/-! ### Condition variables -/

theorem wait (h : Life s n) (CVID : Option Nat) (lockID : Nat) (c : Sender) :
    Life (serverDoWait CVID lockID c s).1 n := by
  unfold serverDoWait
  cases hcv : s.serverCVs.get? CVID with
  | none => exact h
  | some cv =>
    by_cases hlock : (if cv.waitingLock = none then some lockID else cv.waitingLock) = some lockID
    · simp only [hlock, ne_eq, not_true_eq_false, if_false]
      refine nested n (r := .release lockID) rfl c _ (h.putCV hcv fun i _ hlife => ?_)
      exact ⟨hlife.1, hlife.2.1, .inr (by simp)⟩
    · simp only [hlock, ne_eq, not_false_eq_true, if_true]
      exact h

/-- A client leaves the queue of a condition variable that has another reason to stay. -/
theorem wakeUp {CVID : Option Nat} {cv cv' : ServerCV} (h : Life s n)
    (hcv : s.serverCVs.get? CVID = some cv) (hcount : cv'.createCVCount = cv.createCVCount)
    (r : Sender) {rest : List Sender} (hstay : ∀ i, CVID = some i → 0 < n .CV i ∨ rest ≠ [])
    (lockID : Nat) : Life (Net.wakeUp CVID cv' r rest lockID s).1 n := by
  refine nested n (r := .acquire lockID) rfl r _ (h.putCV hcv fun i hi hlife => ?_)
  exact ⟨hcount.trans hlife.1, hlife.2.1, hstay i hi⟩

theorem broadcastLoop {CVID : Option Nat} {cv cv' : ServerCV} (h : Life s n)
    (hcv : s.serverCVs.get? CVID = some cv) (hcount : cv'.createCVCount = cv.createCVCount)
    (lockID : Nat) (q : List Sender) (hstay : q ≠ [] → ∀ i, CVID = some i → 0 < n .CV i) :
    Life (Net.broadcastLoop CVID cv' lockID q s).1 n := by
  induction q generalizing s cv with
  | nil => exact h
  | cons r rest ih =>
    have hpos := hstay (List.cons_ne_nil r rest)
    have hcv' := Table.get?_put_self (a := { cv' with
      q := rest, waitingLock := if rest = [] then none else cv'.waitingLock }) hcv
    rw [← wakeUp_CVs CVID cv' r rest lockID s] at hcv'
    exact ih (h.wakeUp hcv hcount r (fun i hi => .inl (hpos i hi)) lockID) hcv' rfl fun _ => hpos

theorem signal (h : Life s n) (CVID : Option Nat) (lockID : Nat) (c : Sender)
    (hkeep : ∀ i, CVID = some i → n .CV i = 0 → ∀ cv, s.serverCVs.get? CVID = some cv →
      cv.waitingLock = some lockID → cv.q.length ≠ 1) :
    Life (serverDoSignal CVID lockID c s).1 n := by
  unfold serverDoSignal
  split
  · exact h
  · rename_i cv hcv
    split
    · exact h
    · rename_i waitingLock hw
      split
      · exact h
      · rename_i heq
        rw [ne_eq, not_not] at heq
        split
        · exact h
        · rename_i r rest hq
          refine h.wakeUp hcv rfl r (fun i hi => ?_) lockID
          have hlife := h.CVs i
          rw [← hi, hcv] at hlife
          by_cases hzero : n .CV i = 0
          · have hlen := hkeep i hi hzero cv hcv (heq ▸ hw)
            rw [hq, List.length_cons] at hlen
            refine .inr fun hrest => hlen ?_
            rw [hrest]
            rfl
          · have hle := hlife.2.1
            exact .inl (by omega)

theorem broadcast (h : Life s n) (CVID : Option Nat) (lockID : Nat) (c : Sender)
    (hkeep : ∀ i, CVID = some i → n .CV i = 0 → ∀ cv, s.serverCVs.get? CVID = some cv →
      cv.q = []) :
    Life (serverDoBroadcast CVID lockID c s).1 n := by
  unfold serverDoBroadcast
  split
  · exact h
  · rename_i cv hcv
    refine h.broadcastLoop hcv rfl lockID cv.q fun hq i hi => ?_
    have hlife := h.CVs i
    rw [← hi, hcv] at hlife
    have hle := hlife.2.1
    have hne : n .CV i ≠ 0 := fun hzero => hq (hkeep i hi hzero cv hcv)
    omega

/-! ### Destroys -/

theorem destroyLock (h : Life s n) {i : Nat} {l : ServerLock}
    (hl : s.serverLocks.get? (some i) = some l) (hpos : 0 < n .lock i) :
    Life (serverDoDestroyLock (some i) s).1 (shifted n .lock i (-1)) := by
  have hlife := h.locks i
  rw [hl] at hlife
  unfold serverDoDestroyLock
  simp only [hl]
  refine h.checkLockAndDestroy hl (fun j hj => ?_) fun j hj => ?_
  · exact Function.update_of_ne (fun heq => hj (by rw [heq])) _ _
  · cases hj
    rw [Function.update_self, ← hlife.1]
    have := hlife.1
    exact ⟨rfl, by omega, .inr rfl⟩

/-- A condition variable with one create less. -/
theorem destroyCV (h : Life s n) {i : Nat} {cv : ServerCV}
    (hcv : s.serverCVs.get? (some i) = some cv) (hpos : 0 < n .CV i) :
    Life (serverDoDestroyCV (some i) s).1 (shifted n .CV i (-1)) := by
  have hlife := h.CVs i
  rw [hcv] at hlife
  have hcount := hlife.1
  have hget : (s.putCV (some i) { cv with createCVCount := cv.createCVCount - 1 }).serverCVs.get?
      (some i) = some { cv with createCVCount := cv.createCVCount - 1 } := Table.get?_put_self hcv
  have hrest : ∀ j, some i ≠ some j → CVLife ((s.serverCVs.put (some i)
      { cv with createCVCount := cv.createCVCount - 1 }).get? (some j))
      (Function.update (n .CV) i (n .CV i + -1) j) := by
    intro j hj
    rw [Table.get?_put_of_ne hj, Function.update_of_ne (fun heq => hj (by rw [heq]))]
    exact h.CVs j
  unfold serverDoDestroyCV checkCVAndDestroy
  simp only [hcv, hget]
  split
  · rename_i hready
    simp only [Bool.and_eq_true, decide_eq_true_eq] at hready
    refine h.withCVs (Table.forall_remove
      (P := fun j e => CVLife e (Function.update (n .CV) i (n .CV i + -1) j)) hrest fun j hj => ?_)
    cases hj
    rw [Function.update_self, ← hcount]
    exact hready.2
  · rename_i hready
    refine h.withCVs fun j => ?_
    by_cases hj : some i = some j
    · cases hj
      rw [Table.get?_put_self hcv, Function.update_self]
      refine ⟨by rw [← hcount]; rfl, by omega, ?_⟩
      by_cases hq : cv.q = []
      · have hne : cv.createCVCount - 1 ≠ 0 := fun hzero => hready (by simp [hq, hzero])
        exact .inl (by omega)
      · exact .inr hq
    · exact hrest j hj

theorem destroyMV (h : Life s n) {i : Nat} {m : ServerMV}
    (hm : s.serverMVs.get? (some i) = some m) :
    Life (serverDoDestroyMV (some i) s).1 (shifted n .MV i (-1)) := by
  have hlife := h.MVs i
  rw [hm] at hlife
  obtain ⟨hcount, hpos⟩ := hlife
  have hrest : ∀ j, some i ≠ some j →
      MVLife (s.serverMVs.get? (some j)) (Function.update (n .MV) i (n .MV i + -1) j) := by
    intro j hj
    rw [Function.update_of_ne (fun heq => hj (by rw [heq]))]
    exact h.MVs j
  unfold serverDoDestroyMV
  simp only [hm]
  split
  · rename_i hzero
    refine h.withMVs (Table.forall_remove
      (P := fun j e => MVLife e (Function.update (n .MV) i (n .MV i + -1) j)) hrest fun j hj => ?_)
    cases hj
    rw [Function.update_self, ← hcount]
    exact hzero
  · rename_i hzero
    refine h.withMVs fun j => ?_
    by_cases hj : some i = some j
    · cases hj
      rw [Table.get?_put_self hm, Function.update_self]
      exact ⟨by rw [← hcount]; rfl, by omega⟩
    · rw [Table.get?_put_of_ne hj]
      exact hrest j hj

/-! ### Creates -/

theorem createLock (h : Life s n) (hs : s.Intact) (name : String) :
    Life (createLockNamed name s).1
      (Function.update n .lock (Table.raised (n .lock) (createLockNamed name s).2.1)) := by
  unfold createLockNamed
  cases hfind : findLockNamed s name with
  | none =>
    exact h.withLocks (Table.forall_insert hs.locks.ok h.locks (fun _ hb => hb)
      ⟨rfl, by decide, .inl (by decide)⟩)
  | some i =>
    obtain ⟨l, hl, -⟩ := Table.findNamed_some hfind
    simp only [hl]
    refine h.withLocks (Table.forall_raise h.locks hl fun hlife => ?_)
    obtain ⟨hcount, hle, -⟩ := hlife
    exact ⟨by rw [hcount], by omega, .inl (by omega)⟩

theorem createCV (h : Life s n) (hs : s.Intact) (name : String) :
    Life (createCVNamed name s).1
      (Function.update n .CV (Table.raised (n .CV) (createCVNamed name s).2.1)) := by
  unfold createCVNamed
  cases hfind : findCVNamed s name with
  | none =>
    exact h.withCVs (Table.forall_insert hs.CVs.ok h.CVs (fun _ hb => hb)
      ⟨rfl, by decide, .inl (by decide)⟩)
  | some i =>
    obtain ⟨cv, hcv, -⟩ := Table.findNamed_some hfind
    simp only [hcv]
    refine h.withCVs (Table.forall_raise h.CVs hcv fun hlife => ?_)
    obtain ⟨hcount, hle, -⟩ := hlife
    exact ⟨by rw [hcount], by omega, .inl (by omega)⟩

theorem createMV (h : Life s n) (hs : s.Intact) (name : String) (size : Nat) :
    Life (Net.createMV name size s).1
      (Function.update n .MV (Table.raised (n .MV) (Net.createMV name size s).2.1)) := by
  unfold Net.createMV
  cases hfind : findMVNamed s name with
  | none =>
    exact h.withMVs (Table.forall_insert hs.MVs.ok h.MVs (fun _ hb => hb) ⟨rfl, by decide⟩)
  | some i =>
    obtain ⟨m, hm, -⟩ := Table.findNamed_some hfind
    simp only [hm]
    split
    · rw [Table.raised, Function.update_eq_self]
      exact h
    · refine h.withMVs (Table.forall_raise h.MVs hm fun hlife => ?_)
      obtain ⟨hcount, hpos⟩ := hlife
      exact ⟨by rw [hcount], by omega⟩

end Life

/-! ## Runs -/

/-- Creates minus destroys. -/
def Counts.balance (n : Counts) (k : Kind) (i : Nat) : Int := n.created k i - n.destroyed k i

theorem balance_created {n : Counts} {s : Server} {h : Handled} {k : Kind} {index : Option Nat}
    (hc : h.creates s = index.map (k, ·)) (hd : h.destroys s = none) :
    (n.record s h).balance = Function.update n.balance k (Table.raised (n.balance k) index) := by
  funext k' i'
  cases index with
  | none => simp [Counts.balance, Counts.record, hc, hd, countOne, Table.raised]
  | some i =>
    by_cases hk : k' = k
    · subst hk
      by_cases hi : i' = i
      · subst hi
        simp [Counts.balance, Counts.record, hc, hd, countOne, Table.raised]
        omega
      · simp [Counts.balance, Counts.record, hc, hd, countOne, Table.raised, hi]
    · simp [Counts.balance, Counts.record, hc, hd, countOne, hk]

theorem balance_destroyed {n : Counts} {s : Server} {h : Handled} {k : Kind} {i : Nat}
    (hc : h.creates s = none) (hd : h.destroys s = some (k, i)) :
    (n.record s h).balance = shifted n.balance k i (-1) := by
  funext k' i'
  by_cases hk : k' = k
  · subst hk
    by_cases hi : i' = i
    · subst hi
      simp [Counts.balance, Counts.record, hc, hd, countOne, shifted]
      omega
    · simp [Counts.balance, Counts.record, hc, hd, countOne, shifted, hi]
  · simp [Counts.balance, Counts.record, hc, hd, countOne, shifted, hk]

theorem balance_same {n : Counts} {s : Server} {h : Handled} (hc : h.creates s = none)
    (hd : h.destroys s = none) : (n.record s h).balance = n.balance := by
  funext k i
  simp [Counts.balance, Counts.record, hc, hd, countOne]

namespace Life

variable {s : Server} {n : Counts}

theorem create (h : Life s n.balance) (hs : s.Intact) (r : Request) (c : Sender) :
    Life (serverDoCreate r c s).1 (n.record s (.create r c)).balance := by
  cases r with
  | createLock name =>
    rw [balance_created (k := .lock) rfl rfl]
    exact h.createLock hs name
  | createCondition name =>
    rw [balance_created (k := .CV) rfl rfl]
    exact h.createCV hs name
  | createMV name size =>
    rw [balance_created (k := .MV) rfl rfl]
    exact h.createMV hs name size
  | _ =>
    rw [balance_same rfl rfl]
    exact h

/-- A destroy of an entry that is not there does nothing. -/
theorem destroy (h : Life s n.balance) {r : Request} {index : Option Nat} {c : Sender}
    (hr : r = .destroyLock (r.id.getD 0) ∨ r = .destroyCondition (r.id.getD 0) ∨
      r = .destroyMV (r.id.getD 0)) (hb : Balanced (s, n) (.run r index c)) :
    Life (execute r index c s).1 (n.record s (.run r index c)).balance := by
  have hcount : ∀ k i, (Handled.run r index c).destroys s = some (k, i) → 0 < n.balance k i := by
    intro k i hd
    have hlt : n.destroyed k i < n.created k i := hb (k, i) hd
    simp only [Counts.balance]
    omega
  have hgone : ∀ {α : Type} {t : Table α}, t.get? index = none → ∀ i, index = some i →
      (t.get? (some i)).isSome = false := by
    intro α t ht i hi
    rw [← hi, ht]
    rfl
  rcases hr with hr | hr | hr <;> rw [hr] at hcount hb ⊢
  · cases hl : s.serverLocks.get? index with
    | none =>
      rw [balance_same rfl]
      · simpa [execute, serverDo, serverDoDestroyLock, hl] using h
      · cases index with
        | none => rfl
        | some i => simp [Handled.destroys, Server.live, hgone hl i rfl]
    | some l =>
      obtain ⟨i, rfl, -⟩ := Option.bind_eq_some_iff.mp hl
      have hd : (Handled.run (.destroyLock (r.id.getD 0)) (some i) c).destroys s =
          some (.lock, i) := by
        simp [Handled.destroys, Server.live, hl]
      rw [balance_destroyed rfl hd]
      exact h.destroyLock hl (hcount _ _ hd)
  · cases hcv : s.serverCVs.get? index with
    | none =>
      rw [balance_same rfl]
      · simpa [execute, serverDo, serverDoDestroyCV, hcv] using h
      · cases index with
        | none => rfl
        | some i => simp [Handled.destroys, Server.live, hgone hcv i rfl]
    | some cv =>
      obtain ⟨i, rfl, -⟩ := Option.bind_eq_some_iff.mp hcv
      have hd : (Handled.run (.destroyCondition (r.id.getD 0)) (some i) c).destroys s =
          some (.CV, i) := by
        simp [Handled.destroys, Server.live, hcv]
      rw [balance_destroyed rfl hd]
      exact h.destroyCV hcv (hcount _ _ hd)
  · cases hm : s.serverMVs.get? index with
    | none =>
      rw [balance_same rfl]
      · simpa [execute, serverDo, serverDoDestroyMV, hm] using h
      · cases index with
        | none => rfl
        | some i => simp [Handled.destroys, Server.live, hgone hm i rfl]
    | some m =>
      obtain ⟨i, rfl, -⟩ := Option.bind_eq_some_iff.mp hm
      have hd : (Handled.run (.destroyMV (r.id.getD 0)) (some i) c).destroys s =
          some (.MV, i) := by
        simp [Handled.destroys, Server.live, hm]
      rw [balance_destroyed rfl hd]
      exact h.destroyMV hm

/-- **One request.** -/
theorem handled {h : Handled} (hlife : Life s n.balance) (hs : s.Intact)
    (hb : Balanced (s, n) h) (hk : KeepsWaiter (s, n) h) :
    Life (h.act s).1 (n.record s h).balance := by
  cases h with
  | create r c => exact hlife.create hs r c
  | note pending count =>
    rw [balance_same rfl rfl]
    exact ⟨hlife.locks, hlife.CVs, hlife.MVs⟩
  | run r index c =>
    have hzero : ∀ i, n.balance .CV i = 0 → n.created .CV i = n.destroyed .CV i := by
      intro i hi
      simp only [Counts.balance] at hi
      omega
    cases r with
    | destroyLock lockID => exact hlife.destroy (.inl rfl) hb
    | destroyCondition CVID => exact hlife.destroy (.inr (.inl rfl)) hb
    | destroyMV MVID => exact hlife.destroy (.inr (.inr rfl)) hb
    | acquire lockID =>
      rw [balance_same rfl rfl]
      exact hlife.acquire index c
    | release lockID =>
      rw [balance_same rfl rfl]
      exact hlife.release index c
    | wait CVID lockID =>
      rw [balance_same rfl rfl]
      exact hlife.wait index lockID c
    | signal CVID lockID =>
      rw [balance_same rfl rfl]
      refine hlife.signal index lockID c fun i hi hbal cv hcv hw => ?_
      subst hi
      exact hk (hzero i hbal) cv hcv hw
    | broadcast CVID lockID =>
      rw [balance_same rfl rfl]
      refine hlife.broadcast index lockID c fun i hi hbal cv hcv => ?_
      subst hi
      exact hk (hzero i hbal) cv hcv
    | set MVID i value =>
      rw [balance_same rfl rfl]
      change Life (serverDoSet index i value c s).1 n.balance
      unfold serverDoSet
      split
      · exact hlife
      · rename_i m hm
        split
        · exact hlife.putMV hm rfl
        · exact hlife
    | get MVID i =>
      rw [balance_same rfl rfl]
      change Life (serverDoGet index i c s).1 n.balance
      unfold serverDoGet
      split
      · exact hlife
      · split <;> exact hlife
    | createLock | createCondition | createMV =>
      rw [balance_same rfl rfl]
      exact hlife

theorem start (netAddr : Nat) (others : List Nat) :
    Life (Server.start netAddr others) (Counts.balance {}) := by
  refine ⟨fun i => ?_, fun i => ?_, fun i => ?_⟩ <;>
    simp [Server.start, Table.empty, Table.get?, LockLife, CVLife, MVLife, Counts.balance]

end Life

theorem Keeps.handled {s : Server} (hs : s.Intact) (h : Handled) : (h.act s).1.Intact := by
  cases h with
  | create r c => exact (Keeps.create r c s hs).1
  | run r index c => exact (Keeps.execute r index c s hs).1
  | note pending count => exact ⟨hs.locks, hs.CVs, hs.MVs⟩

/-- **An entry is present exactly while it has more creates than destroys, or is in use**,
in every run in which destroys never exceed creates and no signal or broadcast takes the last
client of a condition variable that was destroyed as often as created. -/
theorem resource_lifetime {netAddr : Nat} {others : List Nat} {c : Server × Counts}
    (h : Lib.Reachable (Lib.Restrict (Lib.Restrict LifeStep Balanced) KeepsWaiter)
      (Server.start netAddr others, {}) c) (k : Kind) (i : Nat) :
    c.1.live i k = true ↔ c.2.destroyed k i < c.2.created k i ∨ c.1.inUse i k = true := by
  have hinv : c.1.Intact ∧ Life c.1 c.2.balance := by
    refine h.invariant (I := fun c => c.1.Intact ∧ Life c.1 c.2.balance)
      ⟨.start netAddr others, .start netAddr others⟩ ?_
    rintro c label c' ⟨hs, hlife⟩ ⟨⟨hstep, hb⟩, hk⟩
    rw [hstep]
    exact ⟨Keeps.handled hs label, hlife.handled hs hb hk⟩
  have hbal : c.2.destroyed k i < c.2.created k i ↔ 0 < c.2.balance k i := by
    simp only [Counts.balance]
    omega
  rw [hbal]
  cases k with
  | lock => exact lockLife_live (hinv.2.locks i)
  | CV => exact CVLife_live (hinv.2.CVs i)
  | MV => exact MVLife_live (hinv.2.MVs i)

/-- The step beside the counts as a function. -/
def lifeStep? (c : Server × Counts) (h : Handled) : Option (Server × Counts) :=
  if Balanced c h then some ((h.act c.1).1, c.2.record c.1 h) else none

theorem lifeStep_of_lifeStep? {c c' : Server × Counts} {h : Handled}
    (hc : lifeStep? c h = some c') : Lib.Restrict LifeStep Balanced c h c' := by
  unfold lifeStep? at hc
  split at hc
  · rename_i hb
    exact ⟨(Option.some.inj hc).symm, hb⟩
  · cases hc

/-- A lock that is destroyed while a client holds it goes when the client releases it. -/
theorem resource_lifetime_deferred : ∃ c,
    Lib.Reachable (Lib.Restrict (Lib.Restrict LifeStep Balanced) KeepsWaiter)
      (Server.start 0 [], {}) c ∧
    c.2.created .lock 0 = 1 ∧ c.1.live 0 .lock = false ∧
    (c.1.live 0 .lock = true ↔
      c.2.destroyed .lock 0 < c.2.created .lock 0 ∨ c.1.inUse 0 .lock = true) := by
  have hrun : (Lib.execute (Lib.guarded lifeStep? KeepsWaiter) (Server.start 0 [], {})
      [.create (.createLock "a") someClient, .run (.acquire 0) (some 0) someClient,
        .run (.destroyLock 0) (some 0) someClient, .run (.release 0) (some 0) someClient]).any
      (fun c => decide (c.2.created .lock 0 = 1 ∧ c.1.live 0 .lock = false)) = true := by
    decide +kernel
  obtain ⟨c, hc, hp⟩ := (Option.any_eq_true _ _).mp hrun
  obtain ⟨hcreated, hlive⟩ := of_decide_eq_true hp
  have hreach := Lib.reachable_of_guarded (fun _ _ _ => lifeStep_of_lifeStep?) hc
  exact ⟨c, hreach, hcreated, hlive, resource_lifetime hreach .lock 0⟩

/-- The last client is taken from a condition variable that has been destroyed: the entry
stays, with no creates left and nobody waiting. -/
theorem signalled_CV_stays : ∃ c,
    Lib.Reachable (Lib.Restrict LifeStep Balanced) (Server.start 0 [], {}) c ∧
    c.1.live 0 .CV = true ∧ c.2.created .CV 0 = c.2.destroyed .CV 0 ∧
    c.1.inUse 0 .CV = false := by
  have hrun : (Lib.execute lifeStep? (Server.start 0 [], {})
      [.create (.createLock "l") someClient, .create (.createCondition "c") someClient,
        .run (.acquire 0) (some 0) someClient, .run (.wait 0 0) (some 0) someClient,
        .run (.destroyCondition 0) (some 0) someClient,
        .run (.signal 0 0) (some 0) someClient]).any
      (fun c => decide (c.1.live 0 .CV = true ∧ c.2.created .CV 0 = c.2.destroyed .CV 0 ∧
        c.1.inUse 0 .CV = false)) = true := by
    decide +kernel
  obtain ⟨c, hc, hp⟩ := (Option.any_eq_true _ _).mp hrun
  exact ⟨c, ⟨_, Lib.path_of_execute (fun _ _ _ => lifeStep_of_lifeStep?) hc⟩,
    of_decide_eq_true hp⟩

/-- **Whatever mail a server handles, it runs a sequence of such requests.** -/
theorem receive_handled (src : Nat) (body : Body) (s : Server) (n : Counts) :
    ∃ l n', Lib.Path LifeStep (s, n) l ((receive src body s).1, n') := by
  refine receive_rule (R := fun s _ s' => ∀ n, ∃ l n', Lib.Path LifeStep (s, n) l (s', n'))
    (fun s o s₁ o₁ s₂ h₁ h₂ n => ?_) (fun s out s' hsame _ n => ?_) (fun r c _ s n => ?_)
    (fun r id index c _ s n => ?_) src body s n
  · obtain ⟨l₁, n₁, hl₁⟩ := h₁ n
    obtain ⟨l₂, n₂, hl₂⟩ := h₂ n₁
    exact ⟨l₁ ++ l₂, n₂, hl₁.append hl₂⟩
  · refine ⟨[.note s'.pendingRequests s'.pendingRequestCount],
      n.record s (.note s'.pendingRequests s'.pendingRequestCount), .cons ?_ (.nil _)⟩
    have hs' : s' = { s with
        pendingRequests := s'.pendingRequests
        pendingRequestCount := s'.pendingRequestCount } := by
      obtain ⟨haddr, hothers, hlocks, hCVs, hMVs⟩ := hsame
      rw [← haddr, ← hothers, ← hlocks, ← hCVs, ← hMVs]
    exact Prod.ext hs' rfl
  · exact ⟨[.create r c], _, .cons rfl (.nil _)⟩
  · exact ⟨[.run r index c], _, .cons rfl (.nil _)⟩

end Nachos.Net

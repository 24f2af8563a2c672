import Nachos.Net.Answered
import Nachos.Net.Codec
import Nachos.Net.Integrity

/-!
# What the requests send

While a server runs a request it sends answers, and a Release or Acquires of the lock that the
request names, for the clients that it queues or wakes up. `Posts` counts the numbers that
this takes, and `Tells` says that the answers are `int`s, if the Sets were.
-/

namespace Nachos.Net

open Lib.Stream

/-- The answers among what a server did. -/
def answersOf (out : List Out) : List (Sender × Answer) :=
  out.filterMap fun
    | .mail _ (.answer c a) => some (c, a)
    | _ => none

@[simp] theorem answersOf_nil : answersOf [] = [] := rfl

@[simp] theorem answersOf_append (o₁ o₂ : List Out) :
    answersOf (o₁ ++ o₂) = answersOf o₁ ++ answersOf o₂ :=
  List.filterMap_append

@[simp] theorem answersOf_exec (index : Option Nat) (c : Sender) (r : Request) (out : List Out) :
    answersOf (.exec index c r :: out) = answersOf out := rfl

@[simp] theorem answersOf_sendAnswer (c : Sender) (a : Answer) (s : Server) :
    answersOf (sendAnswer c a s).2 = [(c, a)] := rfl

/-- How many clients wait on the condition variables of the server. -/
def Server.waiters (s : Server) : Nat :=
  (s.serverCVs.entries.map fun e => (e.map fun cv => cv.q.length).getD 0).sum

/-! ## Releases and Acquires -/

/-- The lock of a request about a condition variable. -/
def Request.lock : Request → Nat
  | .wait _ lockID | .signal _ lockID | .broadcast _ lockID => lockID
  | _ => 0

/-- An answer without a value, or a Release or Acquire of the lock with a number below `k`. -/
def Body.Brief (lockID k : Nat) : Body → Prop
  | .answer _ a => a.value = none
  | .request requestID _ r => requestID < k ∧ (r = .acquire lockID ∨ r = .release lockID)
  | .client _ _ | .reply _ _ _ _ => False

/-- Code that uses at most `b` numbers, and sends only such mails. -/
structure Posts (lockID b : Nat) (s : Server) (out : List Out) (s' : Server) : Prop where
  netAddr : s'.netAddr = s.netAddr
  mono : s.pendingRequestCount ≤ s'.pendingRequestCount
  count : s'.pendingRequestCount ≤ s.pendingRequestCount + b
  mails : ∀ dst body, .mail dst body ∈ out → body.Brief lockID s'.pendingRequestCount

theorem Body.Brief.mono {lockID k k' : Nat} {body : Body} (h : body.Brief lockID k) (hk : k ≤ k') :
    body.Brief lockID k' := by
  cases body with
  | answer => exact h
  | request => exact ⟨Nat.lt_of_lt_of_le h.1 hk, h.2⟩
  | client | reply => exact h

namespace Posts

variable {lockID a b : Nat} {s s₁ s₂ : Server} {o₁ o₂ : List Out}

theorem trans (h₁ : Posts lockID a s o₁ s₁) (h₂ : Posts lockID b s₁ o₂ s₂) :
    Posts lockID (a + b) s (o₁ ++ o₂) s₂ where
  netAddr := h₂.netAddr.trans h₁.netAddr
  mono := h₁.mono.trans h₂.mono
  count := by
    have hfirst := h₁.count
    have hsecond := h₂.count
    omega
  mails dst body ho := by
    rcases List.mem_append.mp ho with ho | ho
    · exact (h₁.mails dst body ho).mono h₂.mono
    · exact h₂.mails dst body ho

theorem le (h : Posts lockID a s o₁ s₁) (hab : a ≤ b) : Posts lockID b s o₁ s₁ :=
  ⟨h.netAddr, h.mono, h.count.trans (Nat.add_le_add_left hab _), h.mails⟩

/-- Code that works on the tables and answers without a value. -/
theorem quiet {A : Sender → Prop} (h : Quiet A s o₁ s₁)
    (hanswer : ∀ dst c ans, .mail dst (.answer c ans) ∈ o₁ → ans.value = none) :
    Posts lockID 0 s o₁ s₁ where
  netAddr := h.netAddr
  mono := h.count.ge
  count := h.count.le
  mails dst body ho := by
    have hplain := h.plain _ ho
    cases body with
    | answer c ans => exact hanswer dst c ans ho
    | client | request | reply => exact hplain.elim

theorem silent (h : Quiet (fun _ => True) s o₁ s₁) (hout : ∀ dst body, .mail dst body ∉ o₁) :
    Posts lockID 0 s o₁ s₁ :=
  quiet h fun dst _ _ ho => absurd ho (hout dst _)

theorem sendAnswer (c : Sender) (status : Bool) (s : Server) :
    Posts lockID 0 s (sendAnswer c { status := status } s).2 s := by
  refine quiet (.sendAnswer (A := fun _ => True) c _ s) fun dst c' ans ho => ?_
  cases List.mem_singleton.mp ho
  rfl

theorem checkLockAndDestroy (index : Option Nat) (s : Server) :
    (Net.checkLockAndDestroy index s).2 = [] := by
  unfold Net.checkLockAndDestroy
  split
  · rfl
  · split <;> rfl

theorem acquire (index : Option Nat) (c : Sender) (s : Server) :
    Posts lockID 0 s (serverDoAcquireLock index c s).2 (serverDoAcquireLock index c s).1 := by
  refine quiet (.acquire (A := fun _ => True) index c s) fun dst c' ans ho => ?_
  unfold serverDoAcquireLock at ho
  split at ho
  · cases List.mem_singleton.mp ho
    rfl
  · split at ho
    · cases List.mem_singleton.mp ho
      rfl
    · split at ho
      · simp at ho
      · cases List.mem_singleton.mp ho
        rfl

theorem release (index : Option Nat) (c : Sender) (s : Server) :
    Posts lockID 0 s (serverDoReleaseLock index c s).2 (serverDoReleaseLock index c s).1 := by
  refine quiet (.release (A := fun _ => True) index c s) fun dst c' ans ho => ?_
  unfold serverDoReleaseLock at ho
  split at ho
  · cases ho
  · split at ho
    · split at ho
      · simp only [Act.andThen_apply, Act.emit_apply, Net.sendAnswer, List.mem_append,
          List.mem_singleton, reduceCtorEq, false_or] at ho
        cases ho
        rfl
      · rw [checkLockAndDestroy] at ho
        cases ho
    · cases ho

theorem destroyLock (index : Option Nat) (s : Server) :
    Posts lockID 0 s (serverDoDestroyLock index s).2 (serverDoDestroyLock index s).1 := by
  refine silent (.destroyLock index s) fun dst body ho => ?_
  unfold serverDoDestroyLock at ho
  split at ho
  · cases ho
  · rw [checkLockAndDestroy] at ho
    cases ho

theorem destroyCV (index : Option Nat) (s : Server) :
    Posts lockID 0 s (serverDoDestroyCV index s).2 (serverDoDestroyCV index s).1 := by
  refine silent (.destroyCV index s) fun dst body ho => ?_
  unfold serverDoDestroyCV checkCVAndDestroy at ho
  split at ho
  · cases ho
  · split at ho
    · cases ho
    · split at ho <;> cases ho

/-- An Acquire or Release that is started for a waiting client uses at most one number. -/
theorem nested {r : Request} (hr : r = .acquire lockID ∨ r = .release lockID) (c : Sender)
    (s : Server) : Posts lockID 1 s (serve c r s).2 (serve c r s).1 := by
  have hid : r.id = some lockID := by rcases hr with rfl | rfl <;> rfl
  have hrun : ∀ index s, Posts lockID 0 s (Net.execute r index c s).2
      (Net.execute r index c s).1 := by
    intro index s
    have hexec : Posts lockID 0 s [.exec index c r] s := ⟨rfl, Nat.le_refl _, Nat.le_refl _, by simp⟩
    refine hexec.trans (b := 0) ?_
    rcases hr with rfl | rfl
    · exact acquire index c s
    · exact release index c s
  by_cases howner : owner lockID = s.netAddr
  · rw [serve_mine hid c howner]
    exact (hrun _ s).le (Nat.zero_le 1)
  · by_cases hothers : s.others = []
    · rw [serve_alone hid c howner hothers]
      have hnumber : Posts lockID 1 s [] (useNumber s).1 :=
        ⟨rfl, Nat.le_succ _, Nat.le_refl _, by simp⟩
      exact hnumber.trans (b := 0) (hrun none _)
    · rw [serve_away hid c howner hothers]
      refine ⟨rfl, Nat.le_succ _, Nat.le_refl _, fun dst body ho => ?_⟩
      obtain ⟨d, -, heq⟩ := List.mem_map.mp ho
      cases heq
      exact ⟨Nat.lt_succ_self _, hr⟩

/-- A client enters or leaves a queue, and a request is started for it. -/
theorem moved {o : Out} (ho : ∀ dst body, o ≠ .mail dst body) {r : Request}
    (hr : r = .acquire lockID ∨ r = .release lockID) (c : Sender) (s : Server) :
    Posts lockID 1 s (Act.andThen (.emit o) (.andThen (.emit (.nested c r)) (serve c r)) s).2
      (Act.andThen (.emit o) (.andThen (.emit (.nested c r)) (serve c r)) s).1 := by
  have hfirst : Posts lockID 0 s [o] s := ⟨rfl, Nat.le_refl _, Nat.le_refl _, fun dst body hmem =>
    absurd (List.mem_singleton.mp hmem).symm (ho dst body)⟩
  have hsecond : Posts lockID 0 s [.nested c r] s := ⟨rfl, Nat.le_refl _, Nat.le_refl _, by simp⟩
  exact (hfirst.trans (hsecond.trans (nested hr c s))).le (by omega)

theorem putCV (index : Option Nat) (cv : ServerCV) (s : Server) :
    Posts lockID 0 s [] (s.putCV index cv) :=
  ⟨rfl, Nat.le_refl _, Nat.le_refl _, by simp⟩

theorem wait (index : Option Nat) (c : Sender) (s : Server) :
    Posts lockID 1 s (serverDoWait index lockID c s).2 (serverDoWait index lockID c s).1 := by
  unfold serverDoWait
  cases hcv : s.serverCVs.get? index with
  | none => exact (sendAnswer c false s).le (Nat.zero_le 1)
  | some cv =>
    by_cases hlock : (if cv.waitingLock = none then some lockID else cv.waitingLock) = some lockID
    · simp only [hlock, ne_eq, not_true_eq_false, if_false]
      exact ((putCV index _ s).trans (moved (o := .enter (.CV index) c) (by simp) (.inr rfl) c _)).le
        (by omega)
    · simp only [hlock, ne_eq, not_false_eq_true, if_true]
      exact (sendAnswer c false s).le (Nat.zero_le 1)

theorem wakeUp (index : Option Nat) (cv : ServerCV) (x : Sender) (rest : List Sender)
    (s : Server) : Posts lockID 1 s (wakeUp index cv x rest lockID s).2
      (Net.wakeUp index cv x rest lockID s).1 :=
  ((putCV index _ s).trans (moved (o := .leave (.CV index) x) (by simp) (.inl rfl) x _)).le
    (by omega)

theorem broadcastLoop (index : Option Nat) (cv : ServerCV) (q : List Sender) (s : Server) :
    Posts lockID q.length s (broadcastLoop index cv lockID q s).2
      (Net.broadcastLoop index cv lockID q s).1 := by
  induction q generalizing s with
  | nil => exact ⟨rfl, Nat.le_refl _, Nat.le_refl _, by simp [Net.broadcastLoop]⟩
  | cons x rest ih =>
    refine ((wakeUp index cv x rest s).trans (ih _)).le ?_
    rw [List.length_cons]
    omega

theorem signal (index : Option Nat) (c : Sender) (s : Server) :
    Posts lockID 1 s (serverDoSignal index lockID c s).2 (serverDoSignal index lockID c s).1 := by
  unfold serverDoSignal
  split
  · exact (sendAnswer c false s).le (Nat.zero_le 1)
  · split
    · exact (sendAnswer c true s).le (Nat.zero_le 1)
    · split
      · exact (sendAnswer c false s).le (Nat.zero_le 1)
      · split
        · exact ⟨rfl, Nat.le_refl _, Nat.le_succ _, by simp⟩
        · exact (wakeUp index _ _ _ s).trans (b := 0) (sendAnswer c true _)

theorem length_le_waiters {index : Option Nat} {cv : ServerCV} {s : Server}
    (hcv : s.serverCVs.get? index = some cv) : cv.q.length ≤ s.waiters :=
  List.le_sum_of_mem (List.mem_map.mpr ⟨_, Table.mem_of_get? hcv, rfl⟩)

theorem broadcast (index : Option Nat) (c : Sender) (s : Server) :
    Posts lockID s.waiters s (serverDoBroadcast index lockID c s).2
      (serverDoBroadcast index lockID c s).1 := by
  unfold serverDoBroadcast
  split
  · exact (sendAnswer c false s).le (Nat.zero_le _)
  · rename_i cv hcv
    exact ((broadcastLoop index cv cv.q s).trans (b := 0) (sendAnswer c true _)).le
      (length_le_waiters hcv)

/-- **A request about a lock or a condition variable** uses one number or one for each client
that it wakes up. -/
theorem serverDo {r : Request} (hr : r.isMV = false) (index : Option Nat) (c : Sender)
    (s : Server) :
    Posts r.lock (s.waiters + 1) s (serverDo r index c s).2 (serverDo r index c s).1 := by
  have hnone : Posts r.lock 0 s [] s := ⟨rfl, Nat.le_refl _, Nat.le_refl _, by simp⟩
  cases r with
  | acquire => exact (acquire index c s).le (Nat.zero_le _)
  | release => exact (release index c s).le (Nat.zero_le _)
  | destroyLock => exact (destroyLock index s).le (Nat.zero_le _)
  | wait => exact (wait index c s).le (Nat.le_add_left 1 _)
  | signal => exact (signal index c s).le (Nat.le_add_left 1 _)
  | broadcast => exact (broadcast index c s).le (Nat.le_succ _)
  | destroyCondition => exact (destroyCV index s).le (Nat.zero_le _)
  | createLock | createCondition | createMV => exact hnone.le (Nat.zero_le _)
  | set | get | destroyMV => cases hr

end Posts

/-- Which mails a request with an id sends. -/
theorem serverDo_mails {r : Request} {index : Option Nat} {c : Sender} {s : Server} {dst : Nat}
    {body : Body} (ho : .mail dst body ∈ (serverDo r index c s).2) :
    (∃ x a, body = .answer x a) ∨ ∃ k x r', body = .request k x r' ∧
      k ≤ s.pendingRequestCount + s.waiters ∧ (r' = .acquire r.lock ∨ r' = .release r.lock) := by
  cases hMV : r.isMV with
  | false =>
    have hposts := Posts.serverDo hMV index c s
    have hbrief := hposts.mails dst body ho
    cases body with
    | answer x a => exact .inl ⟨x, a, rfl⟩
    | request k x r' =>
      have hlt := hbrief.1
      have hcount := hposts.count
      exact .inr ⟨k, x, r', rfl, by omega, hbrief.2⟩
    | client | reply => exact hbrief.elim
  | true =>
    obtain ⟨a, heq⟩ := (serverDo_isMV hMV index c s).2.2 _ ho
    cases heq
    exact .inl ⟨c, a, rfl⟩

/-! ## What the answers say -/

/-- The tables are in order, and the values of the monitor variables are `int`s. -/
structure Server.Ints (s : Server) : Prop where
  intact : s.Intact
  values : ∀ mv, some mv ∈ s.serverMVs.entries → ∀ v ∈ mv.v, FitsInt v

/-- Code of one of the servers that keeps it so, and whose answers say `int`s. -/
def Tells (s : Server) (out : List Out) (s' : Server) : Prop :=
  s.netAddr < 5 → s.Ints → s'.netAddr = s.netAddr ∧ s'.Ints ∧
    ∀ dst c a, .mail dst (.answer c a) ∈ out → ∀ v ∈ a.value, FitsInt v

theorem CreateSpec.index_lt {s s' : Server} {r : Request} {index : Option Nat} {out : List Out}
    (h : CreateSpec s r (s', index, out)) : ∀ i ∈ index, i < 100 := by
  cases h with
  | made haddr hintact hlt =>
    rintro i ⟨⟩
    exact hlt
  | full | otherSize => simp

theorem fitsInt_lockID {netAddr : Nat} (haddr : netAddr < 5) {index : Option Nat}
    (hindex : ∀ i ∈ index, i < 100) :
    FitsInt (netAddr * lockTableSize + (index.map Int.ofNat).getD (-1)) := by
  cases index with
  | none =>
    simp only [Option.map_none, Option.getD_none, lockTableSize]
    constructor <;> omega
  | some i =>
    have hi := hindex i rfl
    simp only [Option.map_some, Option.getD_some, lockTableSize, Int.ofNat_eq_natCast]
    constructor <;> omega

theorem fitsInt_createAnswer {s s' : Server} {r : Request} {index : Option Nat} {out : List Out}
    (h : CreateSpec s r (s', index, out)) (haddr : s'.netAddr < 5) :
    ∀ v ∈ (createAnswer 100 s' index).value, FitsInt v := by
  intro v hv
  cases index with
  | none =>
    cases hv
    decide
  | some i =>
    have hlt := h.index_lt i rfl
    cases hv
    constructor <;> omega

namespace Tells

variable {s s₁ s₂ : Server} {o₁ o₂ : List Out}

theorem trans (h₁ : Tells s o₁ s₁) (h₂ : Tells s₁ o₂ s₂) : Tells s (o₁ ++ o₂) s₂ := by
  intro haddr hs
  obtain ⟨haddr₁, hs₁, ho₁⟩ := h₁ haddr hs
  obtain ⟨haddr₂, hs₂, ho₂⟩ := h₂ (haddr₁ ▸ haddr) hs₁
  refine ⟨haddr₂.trans haddr₁, hs₂, fun dst c a ho => ?_⟩
  rcases List.mem_append.mp ho with ho | ho
  · exact ho₁ dst c a ho
  · exact ho₂ dst c a ho

theorem note (s : Server) (out : List Out) (s' : Server) (h : SameTables s s')
    (hout : ∀ o ∈ out, o.forwarded) : Tells s out s' := by
  refine fun _ hs => ⟨h.netAddr, ⟨(Keeps.note s out s' h hout hs.intact).1, fun mv hmv => ?_⟩,
    fun dst c a ho => (hout _ ho).elim⟩
  rw [h.MVs] at hmv
  exact hs.values mv hmv

/-- The variables that a create makes hold zeros, and those that it finds keep their values. -/
theorem createMV_values (name : String) (size : Nat) (h : s.Ints) :
    ∀ mv, some mv ∈ (createMV name size s).1.serverMVs.entries → ∀ v ∈ mv.v, FitsInt v := by
  intro mv hmv v hv
  unfold createMV at hmv
  split at hmv
  · rcases Table.mem_insert hmv with rfl | hold
    · rw [(List.mem_replicate.mp hv).2]
      decide
    · exact h.values mv hold v hv
  · split at hmv
    · rename_i m hm
      split at hmv
      · exact h.values mv hmv v hv
      · rcases Table.mem_put hmv with rfl | hold
        · exact h.values m (Table.mem_of_get? hm) v hv
        · exact h.values mv hold v hv
    · exact h.values mv hmv v hv

theorem create (r : Request) (c : Sender) : (serverDoCreate r c).Meets Tells := by
  intro s haddr hs
  have haddr' : (serverDoCreate r c s).1.netAddr = s.netAddr :=
    (Quiet.createBody (A := fun _ => True) r c s).netAddr
  have hintact := (Keeps.create r c s hs.intact).1
  -- the answer is the last of what a create does, and nothing before it is an answer
  have hlast : ∀ {out : List Out} {ans : Answer}, out = [] → (∀ v ∈ ans.value, FitsInt v) →
      ∀ dst x a, .mail dst (.answer x a) ∈
        .exec none c r :: (out ++ (sendAnswer c ans s).2) → ∀ v ∈ a.value, FitsInt v := by
    rintro out ans rfl hans dst x a ho
    rcases List.mem_cons.mp ho with ho | ho
    · cases ho
    · cases List.mem_singleton.mp ho
      exact hans
  cases r with
  | createLock name =>
    have hspec := createLockNamed_spec hs.intact name
    refine ⟨haddr', ⟨hintact, ?_⟩, hlast (CreateSpec.quiet hspec) fun v hv => ?_⟩
    · have hMVs : (createLockNamed name s).1.serverMVs = s.serverMVs := by
        unfold createLockNamed
        split
        · rfl
        · split <;> rfl
      intro mv hmv
      exact hs.values mv (hMVs ▸ hmv)
    · have hlt : (createLockNamed name s).1.netAddr < 5 := haddr'.symm ▸ haddr
      rw [← Option.some.inj hv]
      exact fitsInt_lockID hlt (CreateSpec.index_lt hspec)
  | createCondition name =>
    have hspec := createCVNamed_spec hs.intact name
    refine ⟨haddr', ⟨hintact, ?_⟩, hlast (CreateSpec.quiet hspec)
      (fitsInt_createAnswer hspec (haddr'.symm ▸ haddr))⟩
    have hMVs : (createCVNamed name s).1.serverMVs = s.serverMVs := by
      unfold createCVNamed
      split
      · rfl
      · split <;> rfl
    intro mv hmv
    exact hs.values mv (hMVs ▸ hmv)
  | createMV name size =>
    have hspec := createMV_spec hs.intact name size
    exact ⟨haddr', ⟨hintact, createMV_values name size hs⟩, hlast (CreateSpec.quiet hspec)
      (fitsInt_createAnswer hspec (haddr'.symm ▸ haddr))⟩
  | _ => exact ⟨haddr', hs, by simp [serverDoCreate]⟩

theorem set (index : Option Nat) (i : Nat) {value : Int} (hvalue : FitsInt value) (c : Sender)
    (s : Server) : Tells s (serverDoSet index i value c s).2 (serverDoSet index i value c s).1 := by
  intro _ hs
  refine ⟨(Quiet.set (A := fun _ => True) index i value c s).netAddr,
    ⟨(Keeps.set index i value c s hs.intact).1, fun mv hmv v hv => ?_⟩, fun dst x a ho => ?_⟩
  · unfold serverDoSet at hmv
    split at hmv
    · exact hs.values mv hmv v hv
    · rename_i m hm
      split at hmv
      · rcases Table.mem_put hmv with rfl | hold
        · rcases List.mem_or_eq_of_mem_set hv with hv | rfl
          · exact hs.values m (Table.mem_of_get? hm) v hv
          · exact hvalue
        · exact hs.values mv hold v hv
      · exact hs.values mv hmv v hv
  · unfold serverDoSet at ho
    split at ho
    · cases List.mem_singleton.mp ho
      simp
    · split at ho <;> cases List.mem_singleton.mp ho <;> simp

theorem get (index : Option Nat) (i : Nat) (c : Sender) (s : Server) :
    Tells s (serverDoGet index i c s).2 (serverDoGet index i c s).1 := by
  intro _ hs
  unfold serverDoGet
  split
  · refine ⟨rfl, hs, fun dst x a ho v hv => ?_⟩
    cases List.mem_singleton.mp ho
    cases hv
    decide
  · rename_i m hm
    split
    · refine ⟨rfl, hs, fun dst x a ho v hv => ?_⟩
      cases List.mem_singleton.mp ho
      cases hv
      rw [List.getD_eq_getElem?_getD]
      cases hget : m.v[i]? with
      | none => decide
      | some v => exact hs.values m (Table.mem_of_get? hm) v (List.mem_of_getElem? hget)
    · refine ⟨rfl, hs, fun dst x a ho v hv => ?_⟩
      cases List.mem_singleton.mp ho
      cases hv
      decide

theorem destroyMV (index : Option Nat) (s : Server) :
    Tells s (serverDoDestroyMV index s).2 (serverDoDestroyMV index s).1 := by
  intro _ hs
  refine ⟨(Quiet.destroyMV (A := fun _ => True) index s).netAddr,
    ⟨(Keeps.destroyMV index s hs.intact).1, fun mv hmv => ?_⟩, fun dst x a ho => ?_⟩
  · unfold serverDoDestroyMV at hmv
    split at hmv
    · exact hs.values mv hmv
    · rename_i m hm
      dsimp only at hmv
      split at hmv
      · exact hs.values mv (Table.mem_remove hmv)
      · rcases Table.mem_put hmv with rfl | hold
        · exact hs.values m (Table.mem_of_get? hm)
        · exact hs.values mv hold
  · unfold serverDoDestroyMV at ho
    split at ho
    · cases ho
    · dsimp only at ho
      split at ho <;> cases ho

/-- **Running a request with an id** whose numbers are `int`s. -/
theorem execute {r : Request} (hr : r.isMV = true → ∀ z ∈ r.numbers, FitsInt z)
    (index : Option Nat) (c : Sender) : (execute r index c).Meets Tells := by
  intro s
  have hexec : Tells s [.exec index c r] s := fun _ hs => ⟨rfl, hs, by simp⟩
  refine hexec.trans ?_
  cases hMV : r.isMV with
  | false =>
    have hposts := Posts.serverDo hMV index c s
    have htold := Told.serverDo (B := fun _ => True) hMV index (c := c) trivial s
    refine fun _ hs => ⟨hposts.netAddr, ⟨(Keeps.execute r index c s hs.intact).1, fun mv hmv => ?_⟩,
      fun dst x a ho v hv => ?_⟩
    · exact hs.values mv (htold.MVs ▸ hmv)
    · have hnone : a.value = none := hposts.mails dst _ ho
      rw [hnone] at hv
      cases hv
  | true =>
    cases r with
    | set MVID i value => exact set index i (hr rfl value (by simp [Request.numbers])) c s
    | get MVID i => exact get index i c s
    | destroyMV MVID => exact destroyMV index s
    | _ => cases hMV

/-- **Handling a mail.** -/
theorem receive {src : Nat} {body : Body} {s : Server}
    (hr : ∀ index c r, body.runs s = some (index, c, r) → r.isMV = true →
      ∀ z ∈ r.numbers, FitsInt z) :
    Tells s (receive src body s).2 (receive src body s).1 := by
  have htrans : ∀ s o s₁ o₁ s₂, Tells s o s₁ → Tells s₁ o₁ s₂ → Tells s (o ++ o₁) s₂ :=
    fun _ _ _ _ _ h₁ h₂ => h₁.trans h₂
  cases hruns : body.runs s with
  | none => exact receive_idle htrans note (fun r c _ => create r c) src hruns
  | some e =>
    obtain ⟨index, c, r⟩ := e
    obtain ⟨-, s₁, pre, hbefore, hpre, hout, hafter⟩ := receive_runs src hruns
    have hrun := (note s pre s₁ hbefore hpre).trans
      ((execute (hr index c r hruns) index c s₁).trans (note _ [] _ hafter (by simp)))
    rw [List.append_nil, ← hout] at hrun
    exact hrun

end Tells

end Nachos.Net

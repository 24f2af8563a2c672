import Nachos.Net.Polling
import Nachos.Net.Post

/-!
# Requests that nobody owns

An id can decode to a machine that is not awake. When no other server is awake, the server
that was asked runs such a request at no table index, and it fails. When others are awake,
they all say NO, and the server runs it with the id itself for a table index: if one of its
own entries is there, the request is run on that entry.

`unowned_mail_harmless_iff` says exactly which mail does harm: one that leaves no room for what
is sent about it, and the last NO of a request that hits a live entry (`strikes`).
-/

namespace Nachos.Net

/-! ## What running a request comes to -/

/-- Running the request at the index has an effect: the entry is live and the request gets
past the checks of its `serverDo...` function. -/
def strikes (s : Server) (c : Sender) (index : Option Nat) : Request → Bool
  | .acquire _ | .destroyLock _ => (s.serverLocks.get? index).isSome
  | .release _ => (s.serverLocks.get? index).any (·.isOwner c)
  | .wait _ lockID | .signal _ lockID => (s.serverCVs.get? index).any fun cv =>
    decide (cv.waitingLock = none ∨ cv.waitingLock = some lockID)
  | .broadcast _ _ | .destroyCondition _ => (s.serverCVs.get? index).isSome
  | .destroyMV _ => (s.serverMVs.get? index).isSome
  | .set _ i _ | .get _ i => (s.serverMVs.get? index).any fun m => decide (i < m.size)
  | .createLock _ | .createCondition _ | .createMV _ _ => false

/-- The tables are as before, and the client is told that its request failed, if its kind is
answered at all. -/
structure Fails (c : Sender) (r : Request) (s : Server) (out : List Out) (s' : Server) : Prop where
  locks : s'.serverLocks = s.serverLocks
  CVs : s'.serverCVs = s.serverCVs
  MVs : s'.serverMVs = s.serverMVs
  answered : (answersOf out).map Prod.fst = if r.answered then [c] else []
  failed : ∀ e ∈ answersOf out, e.2.status = false

theorem fails_sendAnswer {c : Sender} {r : Request} {a : Answer} (s : Server)
    (hr : r.answered = true) (ha : a.status = false) :
    Fails c r s (sendAnswer c a s).2 (sendAnswer c a s).1 := by
  refine ⟨rfl, rfl, rfl, by simp [hr], fun e he => ?_⟩
  rw [answersOf_sendAnswer, List.mem_singleton] at he
  rw [he]
  exact ha

theorem fails_skip {c : Sender} {r : Request} (s : Server) (hr : r.answered = false) :
    Fails c r s [] s :=
  ⟨rfl, rfl, rfl, by simp [hr], by simp⟩

theorem not_fails_of_success {c x : Sender} {r : Request} {a : Answer} {s s' : Server}
    {out : List Out} (hmem : (x, a) ∈ answersOf out) (ha : a.status = true) :
    ¬ Fails c r s out s' := fun h => by
  rw [h.failed _ hmem] at ha
  cases ha

/-! ### Locks -/

section FailsIff

variable {s : Server} {index : Option Nat} {c : Sender}

theorem acquire_fails_iff (lockID : Nat) :
    Fails c (.acquire lockID) s (serverDoAcquireLock index c s).2 (serverDoAcquireLock index c s).1 ↔
      (s.serverLocks.get? index).isSome = false := by
  unfold serverDoAcquireLock
  cases hl : s.serverLocks.get? index with
  | none => exact iff_of_true (fails_sendAnswer s rfl rfl) rfl
  | some l =>
    refine iff_of_false ?_ (by simp)
    dsimp only
    split
    · exact not_fails_of_success (List.mem_singleton.mpr rfl) rfl
    · split
      · intro h
        have hne : { l with q := l.q ++ [c] } ≠ l := fun heq => by
          simpa using congrArg (fun l => l.q.length) heq
        exact Table.put_ne hl hne h.locks
      · exact not_fails_of_success (List.mem_singleton.mpr rfl) rfl

/-- Whatever `checkLockAndDestroy` finds at the index, the table is not what it was before
another lock was written there. -/
theorem checkLockAndDestroy_put_ne {l l' : ServerLock} (hl : s.serverLocks.get? index = some l)
    (hne : l' ≠ l) :
    (checkLockAndDestroy index (s.putLock index l')).1.serverLocks ≠ s.serverLocks := by
  have hput : (s.putLock index l').serverLocks.get? index = some l' := Table.get?_put_self hl
  unfold checkLockAndDestroy
  rw [hput]
  dsimp only
  split
  · intro heq
    dsimp only at heq
    have hremove := Table.get?_remove_self (t := (s.putLock index l').serverLocks) index
    rw [heq, hl] at hremove
    cases hremove
  · exact Table.put_ne hl hne

theorem release_fails_iff (lockID : Nat) :
    Fails c (.release lockID) s (serverDoReleaseLock index c s).2 (serverDoReleaseLock index c s).1 ↔
      (s.serverLocks.get? index).any (·.isOwner c) = false := by
  unfold serverDoReleaseLock
  cases hl : s.serverLocks.get? index with
  | none => exact iff_of_true (fails_skip s rfl) rfl
  | some l =>
    cases hown : l.isOwner c with
    | false =>
      refine iff_of_true ?_ (by simp [hown])
      simp only [hown]
      exact fails_skip s rfl
    | true =>
      refine iff_of_false ?_ (by simp [hown])
      simp only [hown, if_true]
      have hbusy : l.state = .BUSY := by
        simp only [ServerLock.isOwner, Bool.and_eq_true, decide_eq_true_eq] at hown
        exact hown.2
      split
      · exact not_fails_of_success (List.mem_singleton.mpr rfl) rfl
      · intro h
        refine checkLockAndDestroy_put_ne hl (fun heq => ?_) h.locks
        have := congrArg ServerLock.state heq
        rw [hbusy] at this
        cases this

theorem destroyLock_fails_iff (lockID : Nat) :
    Fails c (.destroyLock lockID) s (serverDoDestroyLock index s).2 (serverDoDestroyLock index s).1 ↔
      (s.serverLocks.get? index).isSome = false := by
  unfold serverDoDestroyLock
  cases hl : s.serverLocks.get? index with
  | none => exact iff_of_true (fails_skip s rfl) rfl
  | some l =>
    refine iff_of_false (fun h => ?_) (by simp)
    refine checkLockAndDestroy_put_ne hl (fun heq => ?_) h.locks
    have := congrArg ServerLock.createLockCount heq
    dsimp only at this
    omega

/-! ### Condition variables -/

theorem wait_fails_iff (CVID lockID : Nat) :
    Fails c (.wait CVID lockID) s (serverDoWait index lockID c s).2 (serverDoWait index lockID c s).1 ↔
      ((s.serverCVs.get? index).any fun cv =>
        decide (cv.waitingLock = none ∨ cv.waitingLock = some lockID)) = false := by
  unfold serverDoWait
  cases hcv : s.serverCVs.get? index with
  | none => exact iff_of_true (fails_sendAnswer s rfl rfl) rfl
  | some cv =>
    by_cases hlock : cv.waitingLock = none ∨ cv.waitingLock = some lockID
    · refine iff_of_false (fun h => ?_)
        (by simpa only [Option.any_some, decide_eq_false_iff_not, not_not] using hlock)
      have hset : (if cv.waitingLock = none then some lockID else cv.waitingLock) = some lockID := by
        rcases hlock with h | h <;> simp [h]
      have hCVs := h.CVs
      simp only [hset, ne_eq, not_true_eq_false, if_false] at hCVs
      have hput := (startNested_CVs (r := .release lockID) rfl c (s.putCV index
        { cv with waitingLock := some lockID, q := cv.q ++ [c] })).symm.trans hCVs
      refine Table.put_ne hcv (fun heq => ?_) hput
      simpa using congrArg (fun cv => cv.q.length) heq
    · refine iff_of_true ?_ (by simpa only [Option.any_some, decide_eq_false_iff_not] using hlock)
      have hset : (if cv.waitingLock = none then some lockID else cv.waitingLock) ≠
          some lockID := by
        rw [not_or] at hlock
        rw [if_neg hlock.1]
        exact hlock.2
      simp only [hset, ne_eq, not_false_eq_true, if_true]
      exact fails_sendAnswer s rfl rfl

theorem signal_fails_iff (CVID lockID : Nat) :
    Fails c (.signal CVID lockID) s (serverDoSignal index lockID c s).2
        (serverDoSignal index lockID c s).1 ↔
      ((s.serverCVs.get? index).any fun cv =>
        decide (cv.waitingLock = none ∨ cv.waitingLock = some lockID)) = false := by
  unfold serverDoSignal
  cases hcv : s.serverCVs.get? index with
  | none => exact iff_of_true (fails_sendAnswer s rfl rfl) rfl
  | some cv =>
    cases hlock : cv.waitingLock with
    | none =>
      refine iff_of_false ?_ (by simp [hlock])
      simp only [hlock]
      exact not_fails_of_success (List.mem_singleton.mpr rfl) rfl
    | some waitingLock =>
      simp only [hlock]
      by_cases heq : waitingLock = lockID
      · refine iff_of_false ?_ (by simp [hlock, heq])
        simp only [heq, ne_eq, not_true_eq_false, if_false]
        split
        · intro h
          have := h.answered
          cases this
        · refine not_fails_of_success (x := c) (a := { status := true }) ?_ rfl
          rw [Act.andThen_apply, answersOf_append]
          exact List.mem_append_right _ (List.mem_singleton.mpr rfl)
      · refine iff_of_true ?_ (by simp [hlock, heq])
        simp only [ne_eq, heq, not_false_eq_true, if_true]
        exact fails_sendAnswer s rfl rfl

theorem broadcast_fails_iff (CVID lockID : Nat) :
    Fails c (.broadcast CVID lockID) s (serverDoBroadcast index lockID c s).2
        (serverDoBroadcast index lockID c s).1 ↔
      (s.serverCVs.get? index).isSome = false := by
  unfold serverDoBroadcast
  cases hcv : s.serverCVs.get? index with
  | none => exact iff_of_true (fails_sendAnswer s rfl rfl) rfl
  | some cv =>
    refine iff_of_false (not_fails_of_success (x := c) (a := { status := true }) ?_ rfl) (by simp)
    dsimp only
    rw [Act.andThen_apply, answersOf_append]
    exact List.mem_append_right _ (List.mem_singleton.mpr rfl)

theorem destroyCV_fails_iff (CVID : Nat) :
    Fails c (.destroyCondition CVID) s (serverDoDestroyCV index s).2 (serverDoDestroyCV index s).1 ↔
      (s.serverCVs.get? index).isSome = false := by
  unfold serverDoDestroyCV
  cases hcv : s.serverCVs.get? index with
  | none => exact iff_of_true (fails_skip s rfl) rfl
  | some cv =>
    refine iff_of_false (fun h => ?_) (by simp)
    have hput : (s.putCV index { cv with createCVCount := cv.createCVCount - 1 }).serverCVs.get?
        index = some { cv with createCVCount := cv.createCVCount - 1 } := Table.get?_put_self hcv
    have hCVs := h.CVs
    simp only [checkCVAndDestroy, hput] at hCVs
    split at hCVs
    · have hremove := Table.get?_remove_self (t := (s.putCV index
        { cv with createCVCount := cv.createCVCount - 1 }).serverCVs) index
      dsimp only at hCVs
      rw [hCVs, hcv] at hremove
      cases hremove
    · refine Table.put_ne hcv (fun heq => ?_) hCVs
      have := congrArg ServerCV.createCVCount heq
      dsimp only at this
      omega

/-! ### Monitor variables -/

theorem destroyMV_fails_iff (MVID : Nat) :
    Fails c (.destroyMV MVID) s (serverDoDestroyMV index s).2 (serverDoDestroyMV index s).1 ↔
      (s.serverMVs.get? index).isSome = false := by
  unfold serverDoDestroyMV
  cases hm : s.serverMVs.get? index with
  | none => exact iff_of_true (fails_skip s rfl) rfl
  | some m =>
    refine iff_of_false (fun h => ?_) (by simp)
    have hMVs := h.MVs
    dsimp only at hMVs
    split at hMVs
    · exact Table.remove_ne hm hMVs
    · refine Table.put_ne hm (fun heq => ?_) hMVs
      have := congrArg ServerMV.createMVCount heq
      dsimp only at this
      omega

theorem set_fails_iff (MVID i : Nat) (value : Int) :
    Fails c (.set MVID i value) s (serverDoSet index i value c s).2 (serverDoSet index i value c s).1 ↔
      ((s.serverMVs.get? index).any fun m => decide (i < m.size)) = false := by
  unfold serverDoSet
  cases hm : s.serverMVs.get? index with
  | none => exact iff_of_true (fails_sendAnswer s rfl rfl) rfl
  | some m =>
    by_cases hi : i < m.size
    · refine iff_of_false ?_ (by simp [hi])
      simp only [hi, if_true]
      exact not_fails_of_success (List.mem_singleton.mpr rfl) rfl
    · refine iff_of_true ?_ (by simp [hi])
      simp only [hi, if_false]
      exact fails_sendAnswer s rfl rfl

theorem get_fails_iff (MVID i : Nat) :
    Fails c (.get MVID i) s (serverDoGet index i c s).2 (serverDoGet index i c s).1 ↔
      ((s.serverMVs.get? index).any fun m => decide (i < m.size)) = false := by
  unfold serverDoGet
  cases hm : s.serverMVs.get? index with
  | none => exact iff_of_true (fails_sendAnswer s rfl rfl) rfl
  | some m =>
    by_cases hi : i < m.size
    · refine iff_of_false ?_ (by simp [hi])
      simp only [hi, if_true]
      exact not_fails_of_success (List.mem_singleton.mpr rfl) rfl
    · refine iff_of_true ?_ (by simp [hi])
      simp only [hi, if_false]
      exact fails_sendAnswer s rfl rfl

/-- **A request fails without effect exactly when it does not strike.** -/
theorem serverDo_fails_iff {r : Request} {id : Nat} (hid : r.id = some id) :
    Fails c r s (serverDo r index c s).2 (serverDo r index c s).1 ↔
      strikes s c index r = false := by
  cases r with
  | createLock | createCondition | createMV => cases hid
  | acquire lockID => exact acquire_fails_iff lockID
  | release lockID => exact release_fails_iff lockID
  | destroyLock lockID => exact destroyLock_fails_iff lockID
  | wait CVID lockID => exact wait_fails_iff CVID lockID
  | signal CVID lockID => exact signal_fails_iff CVID lockID
  | broadcast CVID lockID => exact broadcast_fails_iff CVID lockID
  | destroyCondition CVID => exact destroyCV_fails_iff CVID
  | destroyMV MVID => exact destroyMV_fails_iff MVID
  | set MVID i value => exact set_fails_iff MVID i value
  | get MVID i => exact get_fails_iff MVID i

end FailsIff

/-! ## Counting the requests that nobody owns -/

/-- A quantity of the servers, over all that are awake. -/
def Network.total (n : Network) (g : Server → Nat) : Nat :=
  (n.awake.map fun j => g (n.server j)).sum

theorem total_run {n : Network} {i : Nat} (hn : Numbered n) (hi : i ∈ n.awake) (f : Act)
    (g : Server → Nat) :
    (n.run i f).total g + g (n.server i) = n.total g + g (f (n.server i)).1 := by
  have h := Lib.sum_map_of_ne hn.awake hi (F := fun j => g (n.server j))
    (G := fun j => g ((n.run i f).server j))
    fun j hj => by rw [Network.run_server_of_ne _ _ _ hj]
  rw [Network.run_server_self] at h
  exact h

/-- The pending requests of a server for one request. -/
def held (c : Sender) (r : Request) (s : Server) : Nat :=
  s.pendingRequests.countP fun p => decide (p.c = c ∧ p.r = r)

/-- A request that nobody owns is with its client's server, pending, or has been run; `w`
is the difference while a mail is being handled. -/
structure Kept (w : Sender × Request → Int) (n : Network) : Prop where
  count : ∀ c r id, r.id = some id → owner id ∉ n.awake →
    (n.requested c r : Int) = n.mails.countP (Mail.brings (owner id) c r) +
      n.total (held c r) + n.executed c r + w (c, r)
  yes : ∀ m ∈ n.mails, ∀ rid c r id, m.body = .reply rid c r true → r.id = some id →
    owner id ∈ n.awake

theorem kept_init (up : Nat → Bool) : Kept (fun _ => 0) (.init up) where
  count c r id _ _ := by
    have htotal : (Network.init up).total (held c r) = 0 := by
      simp [Network.total, held, Network.init]
    rw [htotal]
    rfl
  yes _ h := by cases h

namespace Kept

variable {n : Network} {i : Nat} {w w' : Sender × Request → Int}

theorem run {f : Act} (hn : Numbered n) (hi : i ∈ n.awake) (h : Kept w n)
    (hmails : ∀ m ∈ mailsOf i (f (n.server i)).2,
      (∀ c r, m.body ≠ .client c r) ∧ (∀ rid c r, m.body = .request rid c r → m.dst ∈ n.awake) ∧
      ∀ rid c r id, m.body = .reply rid c r true → r.id = some id → owner id ∈ n.awake)
    (hbalance : ∀ c r id, r.id = some id → owner id ∉ n.awake →
      ((f (n.server i)).2.countP (Out.isNested c r) + held c r (n.server i) + w (c, r) : Int) =
        held c r (f (n.server i)).1 + (f (n.server i)).2.countP (Out.isExec c r) + w' (c, r)) :
    Kept w' (n.run i f) := by
  refine ⟨fun c r id hid hdead => ?_, fun m hm rid c r id hbody hid => ?_⟩
  · have hold := h.count c r id hid hdead
    have hnew := hbalance c r id hid hdead
    have htotal := total_run hn hi f (held c r)
    have hbrings : (n.run i f).mails.countP (Mail.brings (owner id) c r) =
        n.mails.countP (Mail.brings (owner id) c r) := by
      rw [Network.run_mails, List.countP_append, Nat.add_eq_left, List.countP_eq_zero]
      intro m hm hbrings
      obtain ⟨hclient, hrequest, -⟩ := hmails m hm
      obtain ⟨src, dst, body⟩ := m
      cases body with
      | client c' r' => exact hclient c' r' rfl
      | request rid c' r' =>
        simp only [Mail.brings, Bool.and_eq_true, decide_eq_true_eq] at hbrings
        exact hdead (hbrings.1 ▸ hrequest rid c' r' rfl)
      | reply | answer => cases hbrings
    have hnest : (fun e : Nat × Out => e.2.isNested c r) ∘ (i, ·) = Out.isNested c r := rfl
    have hexec : (fun e : Nat × Out => e.2.isExec c r) ∘ (i, ·) = Out.isExec c r := rfl
    simp only [Network.requested, Network.executed, Network.run_log, List.countP_append,
      List.countP_map, Network.run_sent] at hold ⊢
    rw [hnest, hexec, hbrings]
    push_cast at hold ⊢
    omega
  · rcases List.mem_append.mp hm with hm | hm
    · exact h.yes m hm rid c r id hbody hid
    · exact (hmails m hm).2.2 rid c r id hbody hid

theorem remove {l₁ l₂ : List Mail} {m : Mail} (h : Kept w n) (hmails : n.mails = l₁ ++ m :: l₂)
    (hcount : ∀ c r id, r.id = some id → owner id ∉ n.awake →
      (if m.brings (owner id) c r then 1 else 0) + w (c, r) = w' (c, r)) :
    Kept w' (n.withMails (l₁ ++ l₂)) := by
  refine ⟨fun c r id hid hdead => ?_, fun m' hm' => h.yes m' (hmails ▸ mem_of_mem_remove hm')⟩
  · have hold := h.count c r id hid hdead
    have hnew := hcount c r id hid hdead
    rw [hmails, List.countP_append, List.countP_cons] at hold
    have hcast : ((if m.brings (owner id) c r then 1 else 0 : Nat) : Int) =
        if m.brings (owner id) c r then 1 else 0 := by
      split <;> rfl
    simp only [Network.requested, Network.executed, Network.withMails_mails, Network.total,
      Network.withMails_sent, Network.withMails_log, Network.withMails_server,
      Network.withMails_awake, List.countP_append] at hold ⊢
    push_cast at hold ⊢
    omega

/-- Code whose mails are answers only. -/
theorem run_plain {f : Act} (hn : Numbered n) (hi : i ∈ n.awake) (h : Kept w n)
    (hmails : ∀ m ∈ mailsOf i (f (n.server i)).2, ∃ c a, m.body = .answer c a)
    (hbalance : ∀ c r id, r.id = some id → owner id ∉ n.awake →
      ((f (n.server i)).2.countP (Out.isNested c r) + held c r (n.server i) + w (c, r) : Int) =
        held c r (f (n.server i)).1 + (f (n.server i)).2.countP (Out.isExec c r) + w' (c, r)) :
    Kept w' (n.run i f) := by
  refine h.run hn hi (fun m hm => ?_) hbalance
  obtain ⟨c, a, hbody⟩ := hmails m hm
  simp [hbody]

theorem run_quiet {A : Sender → Prop} {f : Act} (hn : Numbered n) (hi : i ∈ n.awake)
    (h : Kept w n) (hf : Quiet A (n.server i) (f (n.server i)).2 (f (n.server i)).1) :
    Kept w (n.run i f) := by
  have hcount : ∀ P : Out → Bool, (∀ o, o.plain → P o = false) →
      (f (n.server i)).2.countP P = 0 := fun P hP =>
    List.countP_eq_zero.mpr fun o ho => by simp [hP o (hf.plain o ho)]
  refine h.run_plain hn hi (fun m hm => ?_) fun c r _ _ _ => ?_
  · have hplain := hf.plain _ (mem_mailsOf hm).2
    obtain ⟨src, dst, body⟩ := m
    cases body with
    | answer c a => exact ⟨c, a, rfl⟩
    | client | request | reply => exact hplain.elim
  · rw [hcount, hcount, held, held, hf.pending]
    · omega
    · rintro ⟨⟩ ho <;> first | rfl | exact ho.elim
    · rintro ⟨⟩ ho <;> first | rfl | exact ho.elim

/-- One more request of `x` is owed than in `w`. -/
def plus (w : Sender × Request → Int) (x : Sender × Request) (d : Int) :
    Sender × Request → Int := fun y => w y + if y = x then d else 0

theorem plus_owed (w : Sender × Request → Int) (owed : List (Sender × Request))
    (x : Sender × Request) :
    plus (fun y => w y + owed.count y) x 1 = fun y => w y + (x :: owed).count y := by
  funext y
  by_cases heq : y = x
  · subst heq
    simp [plus]
    omega
  · simp [plus, heq, List.count_cons_of_ne (Ne.symm heq)]

theorem plus_paid (w : Sender × Request → Int) (owed : List (Sender × Request))
    (x : Sender × Request) :
    plus (fun y => w y + (x :: owed).count y) x (-1) = fun y => w y + owed.count y := by
  funext y
  by_cases heq : y = x
  · subst heq
    simp [plus]
    omega
  · simp [plus, heq, List.count_cons_of_ne (Ne.symm heq)]

theorem run_nested (hn : Numbered n) (hi : i ∈ n.awake) (h : Kept w n) (c : Sender) (r : Request) :
    Kept (plus w (c, r) 1) (n.run i (.emit (.nested c r))) := by
  refine h.run_plain hn hi (by simp) fun c' r' _ _ _ => ?_
  by_cases heq : (c', r') = (c, r)
  · cases heq
    simp [Out.isNested, Out.isExec, plus]
    omega
  · have hne : ¬ (c = c' ∧ r = r') := fun h => heq (by rw [h.1, h.2])
    simp [Out.isNested, Out.isExec, plus, heq, hne]

theorem run_exec (hn : Numbered n) (hi : i ∈ n.awake) (h : Kept w n) (index : Option Nat)
    (c : Sender) (r : Request) :
    Kept (plus w (c, r) (-1)) (n.run i (.emit (.exec index c r))) := by
  refine h.run_plain hn hi (by simp) fun c' r' _ _ _ => ?_
  by_cases heq : (c', r') = (c, r)
  · cases heq
    simp [Out.isNested, Out.isExec, plus]
    omega
  · have hne : ¬ (c = c' ∧ r = r') := fun h => heq (by rw [h.1, h.2])
    simp [Out.isNested, Out.isExec, plus, heq, hne]

/-- Only the differences of requests that nobody owns matter. -/
theorem congr (h : Kept w n) (hw : ∀ c r id, r.id = some id → owner id ∉ n.awake →
    w' (c, r) = w (c, r)) : Kept w' n :=
  ⟨fun c r id hid hdead => by rw [hw c r id hid hdead]; exact h.count c r id hid hdead, h.yes⟩

/-- Code without mails, runs and starts. -/
theorem run_update {f : Act} (hn : Numbered n) (hi : i ∈ n.awake) (h : Kept w n)
    (hout : (f (n.server i)).2 = [])
    (hheld : ∀ c r id, r.id = some id → owner id ∉ n.awake →
      (held c r (n.server i) + w (c, r) : Int) = held c r (f (n.server i)).1 + w' (c, r)) :
    Kept w' (n.run i f) := by
  refine h.run_plain hn hi (by simp [hout]) fun c r id hid hdead => ?_
  have := hheld c r id hid hdead
  rw [hout]
  simp only [List.countP_nil]
  omega

theorem run_askOthers (hn : Numbered n) (hi : i ∈ n.awake) (h : Kept w n) (c : Sender)
    (r : Request) : Kept (plus w (c, r) (-1)) (n.run i (askOthers c r)) := by
  refine h.run hn hi (fun m hm => ?_) fun c' r' _ _ _ => ?_
  · rw [askOthers, mailsOf_map] at hm
    obtain ⟨d, hd, rfl⟩ := List.mem_map.mp hm
    exact ⟨by simp, fun _ _ _ _ => (hn.mem_others.mp hd).1, by simp⟩
  · have hzero : ∀ P : Out → Bool, (∀ d body, P (.mail d body) = false) →
        (askOthers c r (n.server i)).2.countP P = 0 := by
      intro P hP
      refine List.countP_eq_zero.mpr fun o ho => ?_
      obtain ⟨d, -, rfl⟩ := List.mem_map.mp ho
      simp [hP]
    rw [hzero _ fun _ _ => rfl, hzero _ fun _ _ => rfl]
    have hheld : held c' r' (askOthers c r (n.server i)).1 =
        held c' r' (n.server i) + if c = c' ∧ r = r' then 1 else 0 := by
      simp [held, askOthers, List.countP_append, List.countP_singleton]
    rw [hheld]
    by_cases heq : (c', r') = (c, r)
    · cases heq
      simp [plus]
      omega
    · have hne : ¬ (c = c' ∧ r = r') := fun h => heq (by rw [h.1, h.2])
      simp [plus, heq, hne]

theorem run_sendReply (hn : Numbered n) (hi : i ∈ n.awake) (h : Kept w n) (src rid : Nat)
    (c : Sender) (r : Request) (response : Bool)
    (hyes : response = true → ∀ id, r.id = some id → owner id ∈ n.awake) :
    Kept w (n.run i (sendReply src rid c r response)) := by
  refine h.run hn hi (fun m hm => ?_) fun c' r' _ _ _ => ?_
  · rw [List.mem_singleton.mp hm]
    refine ⟨by simp, by simp, fun rid' c' r' id hbody hid => ?_⟩
    cases hbody
    exact hyes rfl id hid
  · simp [sendReply, Out.isNested, Out.isExec]

theorem run_serverDoCreate (hn : Numbered n) (hi : i ∈ n.awake) (h : Kept w n) {r : Request}
    (hr : r.id = none) (c : Sender) : Kept w (n.run i (serverDoCreate r c)) := by
  rw [serverDoCreate_eq, Network.run_andThen]
  refine ((h.run_exec hn hi none c r).congr fun c' r' id hid _ => ?_).run_quiet
    (hn.run_exec none c r) hi (A := fun _ => True) (.createBody r c _)
  have hne : (c', r') ≠ (c, r) := fun heq => by
    cases heq
    rw [hr] at hid
    cases hid
  simp [plus, hne]

theorem run_createAll (hn : Numbered n) (hi : i ∈ n.awake) (h : Kept w n)
    {l : List PendingRequest} (hl : ∀ p ∈ l, p.r.id = none) :
    Kept w (n.run i (createAll l)) := by
  induction l generalizing n with
  | nil =>
    rw [createAll, Network.run_skip]
    exact h
  | cons p rest ih =>
    rw [createAll, Network.run_andThen]
    exact ih (hn.run_serverDoCreate p.r p.c) hi
      (h.run_serverDoCreate hn hi (hl p List.mem_cons_self) p.c)
      fun q hq => hl q (List.mem_cons_of_mem p hq)

theorem run_dropNamed (hn : Numbered n) (hi : i ∈ n.awake) (h : Kept w n) (r : Request) :
    Kept w (n.run i (dropNamed r)) := by
  refine h.run_update hn hi rfl fun c' r' id hid _ => ?_
  have hheld : held c' r' (dropNamed r (n.server i)).1 = held c' r' (n.server i) := by
    simp only [held, dropNamed, List.countP_filter]
    refine List.countP_congr fun p _ => ?_
    simp only [Bool.and_eq_true, decide_eq_true_eq, Bool.not_eq_true', and_iff_left_iff_imp]
    rintro ⟨rfl, rfl⟩
    cases hsame : r.sameCreate p.r with
    | false => rfl
    | true =>
      rw [sameCreate_id hsame] at hid
      cases hid
  rw [hheld]

theorem run_countNo (hn : Numbered n) (hi : i ∈ n.awake) (h : Kept w n) {index : Nat}
    {p : PendingRequest} (hp : (n.server i).pendingRequests[index]? = some p) :
    Kept w (n.run i (.update (countNo index p))) := by
  refine h.run_update hn hi rfl fun c' r' _ _ _ => ?_
  have hheld : held c' r' (countNo index p (n.server i)) = held c' r' (n.server i) :=
    Lib.countP_set hp rfl
  rw [Act.update_apply, hheld]

theorem run_deletePendingRequest (hn : Numbered n) (hi : i ∈ n.awake) (h : Kept w n)
    {index : Nat} {p : PendingRequest}
    (hp : (n.server i).pendingRequests[index]? = some p) :
    Kept (plus w (p.c, p.r) 1) (n.run i (deletePendingRequest index)) := by
  refine h.run_update hn hi rfl fun c' r' _ _ _ => ?_
  have hheld : held c' r' (deletePendingRequest index (n.server i)).1 +
      (if decide (p.c = c' ∧ p.r = r') then 1 else 0) = held c' r' (n.server i) :=
    Lib.countP_eraseIdx hp
  by_cases heq : (c', r') = (p.c, p.r)
  · cases heq
    simp only [and_self, decide_true, if_true] at hheld
    simp only [plus, if_true]
    omega
  · have hne : ¬ (p.c = c' ∧ p.r = r') := fun h => heq (by rw [h.1, h.2])
    simp only [hne, decide_false, Bool.false_eq_true, if_false] at hheld
    simp only [plus, heq, if_false]
    omega

end Kept

theorem kept_carries (i : Nat) (w : Sender × Request → Int) :
    Carries i (fun _ => True) fun owed n => Numbered n ∧ i ∈ n.awake ∧
      Kept (fun x => w x + owed.count x) n where
  waiting _ _ _ _ _ := trivial
  quiet _ _ _ hf h := ⟨h.1.run_quiet hf, h.2.1, h.2.2.run_quiet h.1 h.2.1 hf⟩
  nested owed _ c r _ _ h :=
    ⟨h.1.run_nested c r, h.2.1, Kept.plus_owed w owed (c, r) ▸ h.2.2.run_nested h.1 h.2.1 c r⟩
  mine owed _ c r _ _ _ h :=
    ⟨h.1.run_exec _ c r, h.2.1, Kept.plus_paid w owed (c, r) ▸ h.2.2.run_exec h.1 h.2.1 _ c r⟩
  alone owed n c r _ _ _ _ h := by
    obtain ⟨hn, hi, h⟩ := h
    have hused : Kept (fun x => w x + ((c, r) :: owed).count x) (n.run i useNumber) :=
      h.run_update hn hi rfl fun _ _ _ _ _ => rfl
    exact ⟨hn.run_useNumber.run_exec _ c r, hi,
      Kept.plus_paid w owed (c, r) ▸ hused.run_exec hn.run_useNumber hi _ c r⟩
  away owed _ c r _ _ _ _ h _ := ⟨h.1.run_askOthers h.2.1 c r, h.2.1,
    Kept.plus_paid w owed (c, r) ▸ h.2.2.run_askOthers h.1 h.2.1 c r⟩

namespace Kept

variable {n : Network} {src dst : Nat} {body : Body} {l₁ l₂ : List Mail}

/-- The server takes up the request of a client. -/
theorem remove_client {c : Sender} {r : Request} (h : Kept (fun _ => 0) n)
    (hmails : n.mails = l₁ ++ ⟨src, dst, .client c r⟩ :: l₂) :
    Kept (fun x => 0 + [(c, r)].count x) (n.withMails (l₁ ++ l₂)) := by
  refine h.remove hmails fun c' r' _ _ _ => ?_
  by_cases heq : (c', r') = (c, r)
  · cases heq
    simp [Mail.brings]
  · have hne : ¬ (c = c' ∧ r = r') := fun h => heq (by rw [h.1, h.2])
    simp [Mail.brings, hne, List.count_cons_of_ne (Ne.symm heq)]

/-- A mail other than a client's request with an id. -/
theorem remove_other (h : Kept (fun _ => 0) n) (hmails : n.mails = l₁ ++ ⟨src, dst, body⟩ :: l₂)
    (hdst : dst ∈ n.awake) (hbody : ∀ c r, body = .client c r → r.id = none) :
    Kept (fun _ => 0) (n.withMails (l₁ ++ l₂)) := by
  refine h.remove hmails fun c r id hid hdead => ?_
  have hb : Mail.brings (owner id) c r ⟨src, dst, body⟩ = false := by
    cases body with
    | client c' r' =>
      have hne : ¬ (c' = c ∧ r' = r) := by
        rintro ⟨rfl, rfl⟩
        rw [hbody c' r' rfl] at hid
        cases hid
      simp [Mail.brings, hne]
    | request rid c' r' =>
      have hne : dst ≠ owner id := fun heq => hdead (heq ▸ hdst)
      simp [Mail.brings, hne]
    | reply | answer => rfl
  simp [hb]

/-- What happens to a request that is not one of nobody's does not change the count. -/
theorem plus_other {w : Sender × Request → Int} {x : Sender × Request} {d : Int}
    (h : Kept (plus w x d) n) (hx : ∀ id, x.2.id = some id → owner id ∈ n.awake) : Kept w n := by
  refine h.congr fun c r id hid hdead => ?_
  have hne : (c, r) ≠ x := fun heq => by
    cases heq
    exact hdead (hx id hid)
  simp [plus, hne]

end Kept

/-- **Handling a mail keeps the count.** -/
theorem Kept.receive {n : Network} {l₁ l₂ : List Mail} {m : Mail} (hn : Numbered n)
    (h : Kept (fun _ => 0) n) (hmails : n.mails = l₁ ++ m :: l₂) (hdst : m.dst ∈ n.awake) :
    Kept (fun _ => 0) ((n.withMails (l₁ ++ l₂)).run m.dst (receive m.src m.body)) := by
  have hn' : Numbered (n.withMails (l₁ ++ l₂)) := hn.remove hmails
  have hok : MailOk n m := hn.mails m (by simp [hmails])
  have hok' : MailOk (n.withMails (l₁ ++ l₂)) m := hok.of_eq rfl rfl
  have hyes := h.yes m (by simp [hmails])
  obtain ⟨src, dst, body⟩ := m
  have hremove := h.remove_other hmails hdst
  obtain ⟨f, hf, heq⟩ := receive_spec src ((n.withMails (l₁ ++ l₂)).server dst) body
  rw [Network.run_congr _ _ heq]
  cases hf with
  | clientId hid =>
    exact ((kept_carries dst fun _ => 0).serve [] hid (fun _ _ _ => trivial)
      ⟨hn', hdst, h.remove_client hmails⟩).2.2
  | @clientHas c r hid =>
    have hremoved := hremove fun c' r' heq => by
      cases heq
      exact hid
    exact hremoved.run_serverDoCreate hn' hdst (by rw [read_id, hid]) _
  | @clientAsk c r hid =>
    have hremoved := hremove fun c' r' heq => by
      cases heq
      exact hid
    exact (hremoved.run_askOthers hn' hdst c r.read).plus_other (by simp [read_id, hid])
  | @clientAlone c r hid =>
    have hremoved := hremove fun c' r' heq => by
      cases heq
      exact hid
    rw [Network.run_andThen]
    have hused : Kept (fun _ => 0) ((n.withMails (l₁ ++ l₂)).run dst useNumber) :=
      hremoved.run_update hn' hdst rfl fun _ _ _ _ _ => rfl
    exact hused.run_serverDoCreate hn'.run_useNumber hdst (by rw [read_id, hid]) _
  | @requestMine rid c r id hid howner =>
    rw [Network.withMails_server, hn.netAddr] at howner
    have hmine : ∀ id', r.id = some id' → owner id' ∈ n.awake := fun id' hid' => by
      cases hid.symm.trans hid'
      exact howner ▸ hdst
    have hreplied := (hremove (by simp)).run_sendReply hn' hdst src rid c r true fun _ => hmine
    have hn₁ := hn'.run_sendReply hok' true
    simp only [execute, Network.run_andThen]
    have hran := (hreplied.run_exec hn₁ hdst (some (id % 100)) c r).plus_other hmine
    have hdone := (kept_carries dst fun _ => 0).serverDo [] r (some (id % 100)) c
      (fun _ _ _ => trivial) ⟨hn₁.run_exec _ c r, hdst, by simpa using hran⟩
    simpa using hdone.2.2
  | requestOther | createNo => exact (hremove (by simp)).run_sendReply hn' hdst _ _ _ _ _ (by simp)
  | createHas hid =>
    rw [Network.run_andThen]
    exact ((hremove (by simp)).run_sendReply hn' hdst _ _ _ _ _ (by simp [hid])).run_serverDoCreate
      (hn'.run_sendReply hok' true) hdst hid _
  | @createAdopt rid c r hid =>
    rw [Network.run_andThen]
    refine ((hremove (by simp)).run_sendReply hn' hdst src rid c r true (by simp [hid])).run_update
      (hn'.run_sendReply hok' true) hdst rfl fun c' r' id hid' _ => ?_
    have hne : ¬ (c = c' ∧ r = r') := by
      rintro ⟨rfl, rfl⟩
      rw [hid] at hid'
      cases hid'
    simp [held, adopt, List.countP_append, hne]
  | replyNone | answer =>
    rw [Network.run_skip]
    exact hremove (by simp)
  | @replyYes rid c r index p id hid hfind hp =>
    refine ((hremove (by simp)).run_deletePendingRequest hn' hdst hp).plus_other fun id' hid' => ?_
    have hr : p.r = r := (hok.agree p (List.mem_of_getElem? hp) (found_requestID hfind hp)).2
    exact hyes rid c r id' rfl (hr ▸ hid')
  | @replyLast rid c r index p id hid hfind hp hlast =>
    obtain ⟨-, hr⟩ := hok.agree p (List.mem_of_getElem? hp) (found_requestID hfind hp)
    have hn₁ := hn'.run_countNo hp
    have hcounted := (hremove (by simp)).run_countNo hn' hdst hp
    have hlt : index < (n.server dst).pendingRequests.length :=
      (List.getElem?_eq_some_iff.mp hp).1
    simp only [execute, Network.run_andThen]
    -- the run is counted before the entry is deleted
    obtain ⟨hn₂, -, hkept⟩ := (kept_carries dst (plus (fun _ => 0) (p.c, r) (-1))).serverDo []
      r (some id) p.c (fun _ _ _ => trivial) ⟨hn₁.run_exec (some id) p.c r, hdst,
        by simpa using hcounted.run_exec hn₁ hdst (some id) p.c r⟩
    have hcounted' : ((((n.withMails (l₁ ++ l₂)).run dst (.update (countNo index p))).run dst
        (.emit (.exec (some id) p.c r))).server dst).pendingRequests[index]? =
          some { p with noCount := p.noCount + 1 } := by
      rw [Network.run_server_self, Act.emit_apply, Network.run_server_self]
      exact List.getElem?_set_self hlt
    have hentry := run_serverDo_entry hcounted' r (some id) p.c
    refine (hkept.run_deletePendingRequest hn₂ hdst hentry).congr fun c' r' _ _ _ => ?_
    simp only [plus, hr, List.count_nil]
    split <;> rfl
  | replyNo hid hfind hp | createReplyNo hid hread hfind hp =>
    exact (hremove (by simp)).run_countNo hn' hdst hp
  | createReplyYes hid hread hfind hp =>
    rw [Network.run_andThen]
    exact (((hremove (by simp)).run_deletePendingRequest hn' hdst hp).plus_other
      (by simp [found_create hid hread hfind hp])).run_dropNamed
        (hn'.run_deletePendingRequest _) hdst _
  | @createReplyLast rid c r response r' index p hid hread hfind hp =>
    have hcreate := found_create hid hread hfind hp
    have hlt : index < (n.server dst).pendingRequests.length :=
      (List.getElem?_eq_some_iff.mp hp).1
    have hn₁ := hn'.run_countNo hp
    have hn₂ := hn₁.run_serverDoCreate (i := dst) p.r p.c
    have hn₃ := hn₂.run_deletePendingRequest (i := dst) index
    have hentry : ((((n.withMails (l₁ ++ l₂)).run dst (.update (countNo index p))).run dst
        (serverDoCreate p.r p.c)).server dst).pendingRequests[index]? =
          some { p with noCount := p.noCount + 1 } := by
      rw [Network.run_server_self, serverDoCreate_pending, Network.run_server_self]
      exact List.getElem?_set_self hlt
    simp only [Network.run_andThen, run_createNamed]
    have hran := ((hremove (by simp)).run_countNo hn' hdst hp).run_serverDoCreate hn₁ hdst
      hcreate p.c
    have hdeleted := (hran.run_deletePendingRequest hn₂ hdst hentry).plus_other (by simp [hcreate])
    exact (hdeleted.run_createAll hn₃ hdst
      fun q hq => sameCreate_id (List.mem_filter.mp hq).2).run_dropNamed
        (hn₃.run_createAll _) hdst _

/-- **Every step keeps the count.** -/
theorem kept_step {n n' : Network} {op : Op} (hn : Numbered n) (h : Kept (fun _ => 0) n)
    (hstep : NetStep n op n') : Kept (fun _ => 0) n' := by
  cases netStep_spec hstep with
  | @send machine mailbox dst r hmachine hdst =>
    refine ⟨fun c r' id hid hdead => ?_, fun m hm rid c r' id hbody hid => ?_⟩
    · have hcount := h.count c r' id hid hdead
      have hbrings : Mail.brings (owner id) c r'
          ⟨machine, dst, .client ⟨machine, mailbox, n.nextTag⟩ r⟩ =
            ((⟨machine, mailbox, n.nextTag⟩, r) == (c, r')) := by
        rw [Bool.eq_iff_iff, beq_iff_eq, Prod.mk.injEq]
        exact decide_eq_true_iff
      simp only [Network.requested, Network.executed, Network.total, List.count_append,
        List.countP_append, List.countP_singleton, List.count_singleton, hbrings] at hcount ⊢
      push_cast at hcount ⊢
      omega
    · rcases List.mem_append.mp hm with hm | hm
      · exact h.yes m hm rid c r' id hbody hid
      · rw [List.mem_singleton.mp hm] at hbody
        cases hbody
  | deliver hmails hdst => exact h.receive hn hmails hdst
  | @take l₁ m l₂ hmails hdst =>
    have hok : MailOk n m := hn.mails m (by simp [hmails])
    obtain ⟨src, dst, body⟩ := m
    cases body with
    | answer c a => exact h.remove hmails (by simp [Mail.brings])
    | client c r => exact absurd (hn.awake_lt _ hok) (Nat.not_lt.mpr hdst)
    | request rid c r => exact absurd (hn.awake_lt _ hok.asked_awake) (Nat.not_lt.mpr hdst)
    | reply rid c r response =>
      exact absurd (hn.awake_lt _ hok.asker_awake) (Nat.not_lt.mpr hdst)

/-! ## Which mails do harm -/

/-- The client and the request that a mail to a server is about. -/
def Body.about : Body → Option (Sender × Request)
  | .client c r | .request _ c r | .reply _ c r _ => some (c, r)
  | .answer _ _ => none

/-- The mail is the last NO that its pending request waits for. -/
def lastNo (s : Server) : Body → Bool
  | .reply rid c r false => (findPending s c rid r).any fun index =>
    (s.pendingRequests[index]?).any fun p => decide ((p.noCount + 1 : Int) = p.sentCount)
  | _ => false

/-- No table has changed, and if the request was run, its client was told that it failed (if
its kind is answered); otherwise nobody was told anything. -/
structure Harmless (c : Sender) (r : Request) (s : Server) (out : List Out) (s' : Server) :
    Prop where
  locks : s'.serverLocks = s.serverLocks
  CVs : s'.serverCVs = s.serverCVs
  MVs : s'.serverMVs = s.serverMVs
  answered : (answersOf out).map Prod.fst =
    if r.answered && out.any (Out.isExec c r) then [c] else []
  failed : ∀ e ∈ answersOf out, e.2.status = false

section Harmless

variable {c : Sender} {r : Request} {s s' : Server} {out : List Out}

theorem harmless_exec (index : Option Nat) :
    Harmless c r s (.exec index c r :: out) s' ↔ Fails c r s out s' := by
  have hany : (Out.exec index c r :: out).any (Out.isExec c r) = true := by simp [Out.isExec]
  constructor
  · intro h
    have hanswered := h.answered
    rw [hany, Bool.and_true] at hanswered
    exact ⟨h.locks, h.CVs, h.MVs, hanswered, h.failed⟩
  · intro h
    refine ⟨h.locks, h.CVs, h.MVs, ?_, h.failed⟩
    rw [hany, Bool.and_true]
    exact h.answered

theorem harmless_idle (hlocks : s'.serverLocks = s.serverLocks) (hCVs : s'.serverCVs = s.serverCVs)
    (hMVs : s'.serverMVs = s.serverMVs) (hanswers : answersOf out = [])
    (hany : out.any (Out.isExec c r) = false) : Harmless c r s out s' :=
  ⟨hlocks, hCVs, hMVs, by simp [hanswers, hany], by simp [hanswers]⟩

/-- At no index there is nothing to strike. -/
theorem strikes_none : strikes s c none r = false := by
  cases r <;> rfl

end Harmless

/-- **The harm is done by a last NO that strikes.** -/
theorem harmless_receive_iff {n : Network} (hn : Numbered n) {m : Mail} (hm : m ∈ n.mails)
    {c : Sender} {r : Request} {id : Nat} (habout : m.body.about = some (c, r))
    (hid : r.id = some id) (hdead : owner id ∉ n.awake) :
    Harmless c r (n.server m.dst) (receive m.src m.body (n.server m.dst)).2
        (receive m.src m.body (n.server m.dst)).1 ↔
      ¬ (lastNo (n.server m.dst) m.body = true ∧
        strikes (n.server m.dst) c (some id) r = true) := by
  have hok := hn.mails m hm
  obtain ⟨src, dst, body⟩ := m
  have hown : dst ∈ n.awake → owner id ≠ (n.server dst).netAddr := fun hdst heq => by
    rw [hn.netAddr] at heq
    exact hdead (heq ▸ hdst)
  obtain ⟨f, hf, heq⟩ := receive_spec src (n.server dst) body
  rw [heq]
  cases hf with
  | clientId hid' =>
    cases habout
    refine iff_of_true ?_ (by simp [lastNo])
    by_cases hothers : (n.server dst).others = []
    · rw [serve_alone hid c (hown hok) hothers]
      have hfails : Fails c r (useNumber (n.server dst)).1
          (serverDo r none c (useNumber (n.server dst)).1).2
          (serverDo r none c (useNumber (n.server dst)).1).1 :=
        (serverDo_fails_iff hid).mpr strikes_none
      exact (harmless_exec none).mpr
        ⟨hfails.locks, hfails.CVs, hfails.MVs, hfails.answered, hfails.failed⟩
    · rw [serve_away hid c (hown hok) hothers]
      refine harmless_idle rfl rfl rfl ?_ ?_
      · simp [askOthers, answersOf]
      · simp [askOthers, Out.isExec]
  | requestMine hid' howner =>
    cases habout
    cases hid.symm.trans hid'
    exact absurd howner (hown hok.asked_awake)
  | requestOther =>
    cases habout
    exact iff_of_true (harmless_idle rfl rfl rfl rfl rfl) (by simp [lastNo])
  | clientHas hid' | clientAsk hid' | clientAlone hid' | createHas hid' | createAdopt hid'
  | createNo hid' | createReplyYes hid' | createReplyLast hid' | createReplyNo hid' =>
    cases habout
    rw [hid] at hid'
    cases hid'
  | @replyNone rid c' r' response hfind =>
    cases habout
    have hread : (r.reread response).1 = r := by
      cases r <;> first | rfl | cases hid
    rw [hread] at hfind
    refine iff_of_true (harmless_idle rfl rfl rfl rfl rfl) ?_
    cases response <;> simp [lastNo, hfind]
  | replyYes =>
    cases habout
    exact iff_of_true (harmless_idle rfl rfl rfl rfl rfl) (by simp [lastNo])
  | @replyLast rid c' r' index p id' hid' hfind hp hlast =>
    cases habout
    cases hid.symm.trans hid'
    have hlastNo : lastNo (n.server dst) (.reply rid c r false) = true := by
      simp [lastNo, hfind, hp, hlast]
    have hc : p.c = c := (hok.agree p (List.mem_of_getElem? hp) (found_requestID hfind hp)).1
    rw [hlastNo, hc]
    have hiff : Fails c r (countNo index p (n.server dst))
        (serverDo r (some id) c (countNo index p (n.server dst))).2
        (serverDo r (some id) c (countNo index p (n.server dst))).1 ↔
          strikes (n.server dst) c (some id) r = false := by
      rw [serverDo_fails_iff hid]
      cases r <;> rfl
    have hsame : Harmless c r (n.server dst)
        ((Act.update (countNo index p)).andThen ((execute r (some id) c).andThen
          (deletePendingRequest index)) (n.server dst)).2
        ((Act.update (countNo index p)).andThen ((execute r (some id) c).andThen
          (deletePendingRequest index)) (n.server dst)).1 ↔
        Harmless c r (countNo index p (n.server dst))
          (.exec (some id) c r :: (serverDo r (some id) c (countNo index p (n.server dst))).2)
          (serverDo r (some id) c (countNo index p (n.server dst))).1 := by
      simp only [Act.andThen_apply, Act.update_apply, execute, Act.emit_apply, List.nil_append,
        List.singleton_append, deletePendingRequest, List.append_nil]
      exact ⟨fun h => ⟨h.locks, h.CVs, h.MVs, h.answered, h.failed⟩,
        fun h => ⟨h.locks, h.CVs, h.MVs, h.answered, h.failed⟩⟩
    rw [hsame, harmless_exec, hiff]
    simp
  | replyNo hid' hfind hp hlast =>
    cases habout
    exact iff_of_true (harmless_idle rfl rfl rfl rfl rfl) (by simp [lastNo, hfind, hp, hlast])
  | answer => cases habout

theorem reachable_kept {up : Nat → Bool} {n : Network} (h : Lib.Reachable NetStep (.init up) n) :
    Numbered n ∧ Kept (fun _ => 0) n ∧ Polled (fun _ _ => False) n :=
  h.invariant (I := fun n => Numbered n ∧ Kept (fun _ => 0) n ∧ Polled (fun _ _ => False) n)
    ⟨numbered_init up, kept_init up, polled_init up⟩ fun _ _ _ hI hstep =>
    ⟨numbered_step hI.1 hstep, kept_step hI.1 hI.2.1 hstep, polled_step hI.1 hI.2.2 hstep⟩

/-- When no mail is left, no request with an id is pending. -/
theorem settled_held {n : Network} (hn : Numbered n) (hpolled : Polled (fun _ _ => False) n)
    (hsettled : Settled n) (c : Sender) {r : Request} {id : Nat} (hid : r.id = some id) :
    n.total (held c r) = 0 := by
  refine List.sum_eq_zero_iff_forall_eq_nat.mpr fun x hx => ?_
  obtain ⟨j, -, rfl⟩ := List.mem_map.mp hx
  refine List.countP_eq_zero.mpr fun p hp hpr => ?_
  obtain ⟨rfl, rfl⟩ := of_decide_eq_true hpr
  have hlower := hpolled.lower j p hp (fun h => h) id hid
  have hpos : 0 < n.mails.countP (Mail.concerns j p.requestID) := by omega
  obtain ⟨m, hm, hconcerns⟩ := List.countP_pos_iff.mp hpos
  have hok := hn.mails m hm
  refine hsettled m hm ?_
  obtain ⟨src, dst, body⟩ := m
  cases body with
  | client | answer => cases hconcerns
  | request rid c r => exact hok.asked_awake
  | reply rid c r response => exact hok.asker_awake

/-- A request that sends a Release or Acquire has struck. -/
theorem strikes_of_asked {r r' : Request} {index : Option Nat} {c x : Sender} {s : Server}
    {dst k : Nat} (ho : .mail dst (.request k x r') ∈ (serverDo r index c s).2) (y : Sender) :
    strikes s y index r = true := by
  cases r with
  | createLock | createCondition | createMV => cases ho
  | acquire => exact ((Quiet.acquire (A := fun _ => True) index c s).plain _ ho).elim
  | release => exact ((Quiet.release (A := fun _ => True) index c s).plain _ ho).elim
  | destroyLock => exact ((Quiet.destroyLock (A := fun _ => True) index s).plain _ ho).elim
  | destroyCondition => exact ((Quiet.destroyCV (A := fun _ => True) index s).plain _ ho).elim
  | destroyMV => exact ((Quiet.destroyMV (A := fun _ => True) index s).plain _ ho).elim
  | set MVID i value =>
    exact ((Quiet.set (A := fun _ => True) index i value c s).plain _ ho).elim
  | get MVID i => exact ((Quiet.get (A := fun _ => True) index i c s).plain _ ho).elim
  | wait CVID lockID =>
    simp only [serverDo, serverDoWait] at ho
    cases hcv : s.serverCVs.get? index with
    | none => simp [hcv, sendAnswer] at ho
    | some cv =>
      by_cases hlock : cv.waitingLock = none ∨ cv.waitingLock = some lockID
      · simp [strikes, hcv, hlock]
      · have hset : (if cv.waitingLock = none then some lockID else cv.waitingLock) ≠
            some lockID := by
          rw [not_or] at hlock
          rw [if_neg hlock.1]
          exact hlock.2
        simp [hcv, hset, sendAnswer] at ho
  | signal CVID lockID =>
    simp only [serverDo, serverDoSignal] at ho
    cases hcv : s.serverCVs.get? index with
    | none => simp [hcv, sendAnswer] at ho
    | some cv =>
      by_cases hlock : cv.waitingLock = none ∨ cv.waitingLock = some lockID
      · simp [strikes, hcv, hlock]
      · cases hwaiting : cv.waitingLock with
        | none => simp [hwaiting] at hlock
        | some waitingLock =>
          have hne : waitingLock ≠ lockID := by simpa [hwaiting] using hlock
          simp [hcv, hwaiting, hne, sendAnswer] at ho
  | broadcast CVID lockID =>
    simp only [serverDo, serverDoBroadcast] at ho
    cases hcv : s.serverCVs.get? index with
    | none => simp [hcv, sendAnswer] at ho
    | some cv => simp [strikes, hcv]

theorem strikes_congr {s s' : Server} (h : SameTables s s') (c : Sender) (index : Option Nat)
    (r : Request) : strikes s' c index r = strikes s c index r := by
  cases r <;> simp only [strikes, h.locks, h.CVs, h.MVs]

/-- Without harm, the only request that is sent while the mail is handled is the one in it. -/
theorem asks_of_harmless {n : Network} (hn : Numbered n) {m : Mail} (hm : m ∈ n.mails)
    (hdst : m.dst ∈ n.awake) {c : Sender} {r : Request} {id : Nat}
    (habout : m.body.about = some (c, r)) (hid : r.id = some id) (hdead : owner id ∉ n.awake)
    (hharm : ¬ (lastNo (n.server m.dst) m.body = true ∧
      strikes (n.server m.dst) c (some id) r = true)) {dst k : Nat} {x : Sender} {r' : Request}
    (ho : .mail dst (.request k x r') ∈ (receive m.src m.body (n.server m.dst)).2) :
    m.body.asks (n.server m.dst) = some (.request k x r') := by
  have hown : owner id ≠ (n.server m.dst).netAddr := fun heq => by
    rw [hn.netAddr] at heq
    exact hdead (heq ▸ hdst)
  rcases receive_mails ho with ⟨_, _, heq⟩ | hasks | ⟨_, _, _, _, -, heq⟩ |
    ⟨index, y, r₁, s₁, hruns, hsame, -, ho⟩
  · cases heq
  · exact hasks
  · cases heq
  · have hstrikes : strikes (n.server m.dst) c index r₁ = true := by
      rw [← strikes_congr hsame]
      exact strikes_of_asked ho c
    obtain ⟨src, d, body⟩ := m
    cases body with
    | client c' r₂ =>
      -- no other server was awake, so the request is run at no index
      cases habout
      simp only [Body.runs, hid, Option.bind_some, if_neg hown] at hruns
      split at hruns
      · cases hruns
        rw [strikes_none] at hstrikes
        cases hstrikes
      · cases hruns
    | request k' c' r₂ =>
      cases habout
      simp only [Body.runs, hid, Option.bind_some, if_neg hown] at hruns
      cases hruns
    | reply k' c' r₂ response =>
      cases habout
      cases response with
      | true => cases hruns
      | false =>
        simp only [Body.runs, hid, Option.bind_some] at hruns
        obtain ⟨i, hfind, hruns⟩ := Option.bind_eq_some_iff.mp hruns
        obtain ⟨p, hp, hruns⟩ := Option.bind_eq_some_iff.mp hruns
        split at hruns
        · rename_i hlast
          cases hruns
          exact absurd ⟨by simp [lastNo, hfind, hp, hlast], hstrikes⟩ hharm
        · cases hruns
    | answer => cases habout

/-- Servers 1 and 2 are awake. A lock is created at server 1, in its slot 0, and then a client
asks server 1 for an acquire of `lockID`; server 2 has just voted NO. -/
def unownedRun (lockID : Nat) : List Op :=
  [.send 5 0 1 (.createLock "a"), .deliver 0, .deliver 0, .deliver 0, .take 0,
    .send 6 0 1 (.acquire lockID), .deliver 0, .deliver 0]

end Nachos.Net

import Nachos.Net.Custody

/-!
# A lone server is a monitor

The lock and condition functions of a server to which no other server is awake, each as a
move of clients between the queues (`Serves`).
-/

namespace Nachos.Net

/-! ## Queues and owners after a change -/

section Changes

variable {s : Server}

theorem queue_putLock {lockID : Option Nat} {l : ServerLock}
    (hl : s.serverLocks.get? lockID = some l) (l' : ServerLock) (queue : Queue) :
    (s.putLock lockID l').queue queue = if queue = .lock lockID then l'.q else s.queue queue := by
  cases queue with
  | CV index => rfl
  | lock index =>
    by_cases hindex : index = lockID
    · subst hindex
      rw [if_pos rfl, Server.queue, Server.putLock, Table.get?_put_self hl]
      rfl
    · rw [if_neg fun heq => hindex (Queue.lock.inj heq), Server.queue, Server.putLock,
        Table.get?_put_of_ne (Ne.symm hindex)]
      rfl

theorem queue_putCV {CVID : Option Nat} {cv : ServerCV} (hcv : s.serverCVs.get? CVID = some cv)
    (cv' : ServerCV) (queue : Queue) :
    (s.putCV CVID cv').queue queue = if queue = .CV CVID then cv'.q else s.queue queue := by
  cases queue with
  | lock index => rfl
  | CV index =>
    by_cases hindex : index = CVID
    · subst hindex
      rw [if_pos rfl, Server.queue, Server.putCV, Table.get?_put_self hcv]
      rfl
    · rw [if_neg fun heq => hindex (Queue.CV.inj heq), Server.queue, Server.putCV,
        Table.get?_put_of_ne (Ne.symm hindex)]
      rfl

/-- The queue at a slot, when the slot is destroyed with its queue empty. -/
theorem elim_remove {α : Type} {t : Table α} {index : Option Nat} {a : α} {q : α → List Sender}
    (ha : t.get? index = some a) (hq : q a = []) (slot : Option Nat) :
    ((t.remove index).get? slot).elim [] q = (t.get? slot).elim [] q := by
  by_cases hslot : index = slot
  · subst hslot
    rw [Table.get?_remove_self, ha]
    exact hq.symm
  · rw [Table.get?_remove_of_ne hslot]

/-- The queue at a slot, when an entry with an empty queue is put into the table. -/
theorem elim_insert {α : Type} {t : Table α} {a : α} {q : α → List Sender} (hok : t.Ok)
    (hq : q a = []) (slot : Option Nat) :
    ((t.insert a).1.get? slot).elim [] q = (t.get? slot).elim [] q := by
  generalize hinsert : t.insert a = res
  cases hinsert ▸ hok.insert a with
  | full => rfl
  | @new t' i hfree hself hother _ =>
    cases slot with
    | none => rfl
    | some j =>
      by_cases hj : j = i
      · subst hj
        rw [hfree, hself]
        exact hq
      · rw [hother j hj]

theorem holds_putLock {lockID index : Option Nat} {l' : ServerLock} {x : Sender}
    (h : (s.putLock lockID l').holds index x) :
    lockID = index ∧ l'.isOwner x = true ∨ s.holds index x := by
  obtain ⟨l, hl, hx⟩ := h
  rcases Table.get?_put_cases hl with ⟨heq, rfl⟩ | ⟨-, hold⟩
  · exact .inl ⟨heq, hx⟩
  · exact .inr ⟨l, hold, hx⟩

/-- Writing a lock back with the same owner takes no lock from anybody. -/
theorem holds_of_putLock {lockID : Option Nat} {l l' : ServerLock}
    (hl : s.serverLocks.get? lockID = some l) {index : Option Nat} {x : Sender}
    (howner : l'.isOwner x = true → l.isOwner x = true)
    (h : (s.putLock lockID l').holds index x) : s.holds index x := by
  rcases holds_putLock h with ⟨rfl, hx⟩ | hold
  · exact ⟨l, hl, howner hx⟩
  · exact hold

end Changes

/-! ## Locks -/

namespace Serves

variable {s s' : Server} {B : List (Sender × Request)} {hand : List Sender}

/-- Code that ends with the answer to the client in hand. -/
theorem of_answer {pre : List Out} {c : Sender} {r : Request} {a : Answer} (hpre : Silent pre)
    (hmem : (c, r) ∈ B) (hcustody : Custody s' B (c :: hand)) (hnetAddr : s'.netAddr = s.netAddr)
    (hfifo : ∀ queue, s.queue queue ++ entered queue pre = left queue pre ++ s'.queue queue)
    (hgrant : a.status = true → ∀ L, r.waitsFor = some L →
      s'.holds (checkIfLockIsMineAndGetMyIndex s' L) c)
    (hrecorded : ∀ index x, s'.holds index x →
      s.holds index x ∨ (a.status && c.same x) = true) :
    Serves s B (pre ++ [answerMail c a]) s' hand where
  custody := hcustody.answer hmem hpre a
  netAddr := hnetAddr
  fifo queue := by
    rw [entered_append, left_append]
    simpa [entered, left, answerMail] using hfifo queue
  granted c' r' L hmem' hL hgranted := by
    rw [granted_answerMail hpre, Bool.and_eq_true] at hgranted
    cases hcustody.apart.eq hmem hmem' hgranted.2
    exact hgrant hgranted.1 L hL
  recorded index x hx := by
    rw [granted_answerMail hpre]
    exact hrecorded index x hx
  only o ho c' hc' := by
    rcases List.mem_append.mp ho with ho | ho
    · rw [hpre o ho] at hc'
      cases hc'
    · rw [List.mem_singleton.mp ho] at hc'
      cases hc'
      exact ⟨r, hmem⟩
  once c' := by
    rw [answersTo_append, hpre.answersTo, Nat.zero_add]
    exact List.countP_le_length

/-- The client in hand is answered and nothing else happens. -/
theorem answer {c : Sender} {r : Request} (h : Custody s B (c :: hand)) (hmem : (c, r) ∈ B)
    (a : Answer) (hgrant : a.status = true → ∀ L, r.waitsFor = some L →
      s.holds (checkIfLockIsMineAndGetMyIndex s L) c) :
    Serves s B (sendAnswer c a s).2 s hand :=
  have hsilent : Silent [] := fun o ho => by cases ho
  of_answer hsilent hmem h rfl (fun queue => by simp [entered, left]) hgrant
    fun index x hx => .inl hx

/-- A failure is told to the client in hand. -/
theorem refuse {c : Sender} {r : Request} (h : Custody s B (c :: hand)) (hmem : (c, r) ∈ B) :
    Serves s B (sendAnswer c { status := false } s).2 s hand :=
  answer h hmem _ fun hstatus => by cases hstatus

/-- Auxiliary records. -/
theorem note {o : Out} (h : Custody s B hand) (ho : o.answerTo = none)
    (hqueue : ∀ queue, entered queue [o] = [] ∧ left queue [o] = []) : Serves s B [o] s hand := by
  refine of_silent (fun o' ho' => ?_) h rfl (fun queue => ?_) fun index x hx => hx
  · rw [List.mem_singleton.mp ho']
    exact ho
  · rw [(hqueue queue).1, (hqueue queue).2, List.append_nil, List.nil_append]

theorem exec (h : Custody s B hand) (index : Option Nat) (c : Sender) (r : Request) :
    Serves s B [.exec index c r] s hand :=
  note h rfl fun _ => ⟨rfl, rfl⟩

theorem nested (h : Custody s B hand) (c : Sender) (r : Request) :
    Serves s B [.nested c r] s hand :=
  note h rfl fun _ => ⟨rfl, rfl⟩

/-- A lock is written back with its queue. -/
theorem putLock (h : Custody s B hand) {lockID : Option Nat} {l l' : ServerLock}
    (hl : s.serverLocks.get? lockID = some l) (hq : l'.q = l.q)
    (hfree : l'.state = .FREE → l.q = [])
    (howner : ∀ x, l'.isOwner x = true → l.isOwner x = true) :
    Serves s B [] (s.putLock lockID l') hand := by
  refine of_silent (fun o ho => by cases ho) ?_ rfl (fun queue => ?_)
    fun index x hx => holds_of_putLock hl (howner x) hx
  · exact h.putLock hl (by rwa [hq]) (fun x hx => .inl (hq ▸ hx)) fun x => by rw [hq]
  · rw [queue_putLock hl]
    split
    · rename_i hqueue
      rw [hqueue, hq, Server.queue, hl]
      simp [entered, left]
    · simp [entered, left]

/-- `checkLockAndDestroy`. -/
theorem checkLockAndDestroy (h : Custody s B hand) (lockID : Option Nat) :
    Serves s B (checkLockAndDestroy lockID s).2 (Net.checkLockAndDestroy lockID s).1 hand := by
  have hrefl : Serves s B [] s hand :=
    of_silent (fun o ho => by cases ho) h rfl (fun queue => by simp [entered, left])
      fun index x hx => hx
  unfold Net.checkLockAndDestroy
  split
  · exact hrefl
  · rename_i l hl
    split
    · rename_i hdestroy
      simp only [Bool.and_eq_true, decide_eq_true_eq] at hdestroy
      have hq := h.free lockID l hl hdestroy.1.2
      refine of_silent (fun o ho => by cases ho) (h.removeLock hl hq) rfl (fun queue => ?_) ?_
      · cases queue with
        | CV index => simp [entered, left, Server.queue]
        | lock index =>
          simp only [entered, left, Server.queue, List.filterMap_nil, List.append_nil,
            List.nil_append]
          exact (elim_remove hl hq index).symm
      · rintro index x ⟨l', hl', hx⟩
        exact ⟨l', (Table.get?_remove_cases hl').2, hx⟩
    · exact hrefl

/-- Code that takes no lock from its owner and makes no lock. -/
structure Keeps (s s' : Server) : Prop where
  holds : ∀ index x, s.holds index x → s'.holds index x
  missing : ∀ index, s.serverLocks.get? index = none → s'.serverLocks.get? index = none

theorem Keeps.refl (s : Server) : Keeps s s := ⟨fun _ _ h => h, fun _ h => h⟩

theorem Keeps.trans {s₁ s₂ : Server} (h₁ : Keeps s s₁) (h₂ : Keeps s₁ s₂) : Keeps s s₂ :=
  ⟨fun index x h => h₂.holds index x (h₁.holds index x h),
    fun index h => h₂.missing index (h₁.missing index h)⟩

theorem Keeps.putLock {lockID : Option Nat} {l l' : ServerLock}
    (hl : s.serverLocks.get? lockID = some l)
    (howner : ∀ x, l.isOwner x = true → l'.isOwner x = true) : Keeps s (s.putLock lockID l') := by
  refine ⟨fun index x ⟨l₁, hl₁, hx⟩ => ?_, fun index hnone => ?_⟩
  · by_cases hindex : lockID = index
    · subst hindex
      cases hl.symm.trans hl₁
      exact ⟨l', Table.get?_put_self hl, howner x hx⟩
    · exact ⟨l₁, (Table.get?_put_of_ne hindex l').trans hl₁, hx⟩
  · have hindex : lockID ≠ index := by
      rintro rfl
      cases hl.symm.trans hnone
    exact (Table.get?_put_of_ne hindex l').trans hnone

/-- `serverDoAcquireLock`, for the client in hand: it is answered or joins the queue. -/
theorem acquire {lockID : Option Nat} {c : Sender} {r : Request} (h : Custody s B (c :: hand))
    (hmem : (c, r) ∈ B)
    (hlock : s.serverLocks.get? lockID = none ∨
      ∃ L, r.waitsFor = some L ∧ checkIfLockIsMineAndGetMyIndex s L = lockID) :
    Serves s B (serverDoAcquireLock lockID c s).2 (serverDoAcquireLock lockID c s).1 hand ∧
      Keeps s (serverDoAcquireLock lockID c s).1 := by
  unfold serverDoAcquireLock
  cases hl : s.serverLocks.get? lockID with
  | none => exact ⟨refuse h hmem, .refl s⟩
  | some l =>
    obtain ⟨L, hL, hindex⟩ : ∃ L, r.waitsFor = some L ∧
        checkIfLockIsMineAndGetMyIndex s L = lockID := by
      refine hlock.resolve_left fun hnone => ?_
      cases hl.symm.trans hnone
    have hown : ∀ L', r.waitsFor = some L' → checkIfLockIsMineAndGetMyIndex s L' = lockID :=
      fun L' hL' => by cases hL.symm.trans hL'; exact hindex
    dsimp only
    split
    · rename_i howner
      exact ⟨answer h hmem _ fun _ L' hL' => ⟨l, by rw [hown L' hL', hl], howner⟩, .refl s⟩
    · split
      · -- the lock is busy: the client joins the queue
        rename_i hbusy
        change Serves s B [.enter (.lock lockID) c] (s.putLock lockID { l with q := l.q ++ [c] })
          hand ∧ Keeps s (s.putLock lockID { l with q := l.q ++ [c] })
        refine ⟨of_silent (fun o ho => ?_) ?_ rfl (fun queue => ?_) fun index x hx => ?_,
          .putLock hl fun x hx => hx⟩
        · rw [List.mem_singleton.mp ho]
          rfl
        · refine h.putLock hl (fun hfree => ?_) (fun x hx => ?_) fun x => ?_
          · cases hbusy.symm.trans hfree
          · rcases List.mem_append.mp hx with hx | hx
            · exact .inl hx
            · cases List.mem_singleton.mp hx
              exact .inr ⟨r, L, hmem, hL, hindex⟩
          · rw [List.countP_append, List.countP_cons, List.countP_cons, List.countP_nil]
            omega
        · rw [queue_putLock hl]
          by_cases hqueue : queue = .lock lockID
          · subst hqueue
            simp [entered, left, Server.queue, hl]
          · simp [entered, left, hqueue, Ne.symm hqueue]
        · refine holds_of_putLock hl ?_ hx
          exact fun howner => howner
      · -- the lock is free: the client is its owner from now on
        rename_i hfree
        change Serves s B ([] ++ [answerMail c { status := true }])
          (s.putLock lockID { l with state := .BUSY, owner := c }) hand ∧
          Keeps s (s.putLock lockID { l with state := .BUSY, owner := c })
        refine ⟨of_answer (fun o ho => by cases ho) hmem ?_ rfl (fun queue => ?_)
          (fun _ L' hL' => ⟨{ l with state := .BUSY, owner := c }, ?_, ?_⟩) fun index x hx => ?_,
          .putLock hl fun x hx => ?_⟩
        · exact h.putLock hl (fun hbusy => by cases hbusy) (fun x hx => .inl hx) fun x => rfl
        · rw [queue_putLock hl]
          split
          · rename_i hqueue
            rw [hqueue, Server.queue, hl]
            simp [entered, left]
          · simp [entered, left]
        · have hindex' : checkIfLockIsMineAndGetMyIndex
              (s.putLock lockID { l with state := .BUSY, owner := c }) L' = lockID := hown L' hL'
          rw [hindex']
          exact Table.get?_put_self hl
        · simp [ServerLock.isOwner, Sender.same_refl]
        · rcases holds_putLock hx with ⟨-, hx⟩ | hold
          · simp only [ServerLock.isOwner, Bool.and_eq_true] at hx
            exact .inr (by simpa using hx.1)
          · exact .inl hold
        · simp [ServerLock.isOwner, hfree] at hx

/-- `serverDoReleaseLock`: the first client in the queue is the owner from now on. -/
theorem release (h : Custody s B hand) (lockID : Option Nat) (c : Sender) :
    Serves s B (serverDoReleaseLock lockID c s).2 (serverDoReleaseLock lockID c s).1 hand := by
  have hsilent : Silent [] := fun o ho => by cases ho
  have hrefl : Serves s B [] s hand :=
    of_silent hsilent h rfl (fun queue => by simp [entered, left]) fun index x hx => hx
  unfold serverDoReleaseLock
  cases hl : s.serverLocks.get? lockID with
  | none => exact hrefl
  | some l =>
    dsimp only
    split
    · rename_i howner
      have hbusy : l.state = .BUSY := by
        simp only [ServerLock.isOwner, Bool.and_eq_true, decide_eq_true_eq] at howner
        exact howner.2
      split
      · rename_i x rest hq
        obtain ⟨r, L, hmem, hL, hindex⟩ := h.lockQ lockID l hl x (by rw [hq]; exact List.mem_cons_self)
        change Serves s B ([.leave (.lock lockID) x] ++ [answerMail x { status := true }])
          (s.putLock lockID { l with owner := x, q := rest }) hand
        refine of_answer (fun o ho => ?_) hmem ?_ rfl (fun queue => ?_)
          (fun _ L' hL' => ⟨{ l with owner := x, q := rest }, ?_, ?_⟩) fun index y hy => ?_
        · rw [List.mem_singleton.mp ho]
          rfl
        · refine h.putLock hl (fun hfree => ?_) (fun y hy => .inl ?_) fun y => ?_
          · cases hbusy.symm.trans hfree
          · rw [hq]
            exact List.mem_cons_of_mem x hy
          · rw [hq, List.countP_cons, List.countP_cons]
            dsimp only
            omega
        · rw [queue_putLock hl]
          by_cases hqueue : queue = .lock lockID
          · subst hqueue
            simp [entered, left, Server.queue, hl, hq]
          · simp [entered, left, hqueue, Ne.symm hqueue]
        · have hindex' : checkIfLockIsMineAndGetMyIndex
              (s.putLock lockID { l with owner := x, q := rest }) L' = lockID := by
            cases hL.symm.trans hL'
            exact hindex
          rw [hindex']
          exact Table.get?_put_self hl
        · simp [ServerLock.isOwner, Sender.same_refl, hbusy]
        · rcases holds_putLock hy with ⟨-, hy⟩ | hold
          · simp only [ServerLock.isOwner, Bool.and_eq_true] at hy
            exact .inr (by simpa using hy.1)
          · exact .inl hold
      · rename_i hq
        have hput : Serves s B [] (s.putLock lockID { l with state := .FREE }) hand :=
          putLock h hl rfl (fun _ => hq) fun x hx => by simp [ServerLock.isOwner] at hx
        have hcustody := hput.custody
        rw [hsilent.unanswered] at hcustody
        exact after_silent hsilent h.apart hput (checkLockAndDestroy hcustody lockID)
    · exact hrefl

/-- `serverDoDestroyLock`. -/
theorem destroyLock (h : Custody s B hand) (lockID : Option Nat) :
    Serves s B (serverDoDestroyLock lockID s).2 (serverDoDestroyLock lockID s).1 hand := by
  have hsilent : Silent [] := fun o ho => by cases ho
  unfold serverDoDestroyLock
  cases hl : s.serverLocks.get? lockID with
  | none => exact of_silent hsilent h rfl (fun queue => by simp [entered, left]) fun _ _ hx => hx
  | some l =>
    have hput : Serves s B [] (s.putLock lockID
        { l with isToBeDestroyed := true, createLockCount := l.createLockCount - 1 }) hand :=
      putLock h hl rfl (h.free lockID l hl) fun x hx => hx
    have hcustody := hput.custody
    rw [hsilent.unanswered] at hcustody
    exact after_silent hsilent h.apart hput (checkLockAndDestroy hcustody lockID)

/-! ## Condition variables -/

/-- A condition variable is written back with its queue. -/
theorem putCV (h : Custody s B hand) {CVID : Option Nat} {cv cv' : ServerCV}
    (hcv : s.serverCVs.get? CVID = some cv) (hq : cv'.q = cv.q)
    (hwaiting : cv'.waitingLock = cv.waitingLock) : Serves s B [] (s.putCV CVID cv') hand := by
  refine of_silent (fun o ho => by cases ho) ?_ rfl (fun queue => ?_) fun index x hx => hx
  · refine h.putCV hcv (fun x hx => ?_) (fun hne => ?_) fun x => by rw [hq]
    · rw [hwaiting]
      exact h.CVQ CVID cv hcv x (hq ▸ hx)
    · rw [hq]
      exact h.waiting CVID cv hcv (hwaiting ▸ hne)
  · rw [queue_putCV hcv]
    split
    · rename_i hqueue
      rw [hqueue, hq, Server.queue, hcv]
      simp [entered, left]
    · simp [entered, left]

/-- `checkCVAndDestroy`. -/
theorem checkCVAndDestroy (h : Custody s B hand) (CVID : Option Nat) :
    Serves s B (checkCVAndDestroy CVID s).2 (Net.checkCVAndDestroy CVID s).1 hand := by
  have hrefl : Serves s B [] s hand :=
    of_silent (fun o ho => by cases ho) h rfl (fun queue => by simp [entered, left])
      fun index x hx => hx
  unfold Net.checkCVAndDestroy
  split
  · exact hrefl
  · rename_i cv hcv
    split
    · rename_i hdestroy
      simp only [Bool.and_eq_true, List.isEmpty_iff] at hdestroy
      refine of_silent (fun o ho => by cases ho) (h.removeCV hcv hdestroy.1) rfl (fun queue => ?_)
        fun index x hx => hx
      cases queue with
      | lock index => simp [entered, left, Server.queue]
      | CV index =>
        simp only [entered, left, Server.queue, List.filterMap_nil, List.append_nil,
          List.nil_append]
        exact (elim_remove hcv hdestroy.1 index).symm
    · exact hrefl

/-- `serverDoDestroyCV`. -/
theorem destroyCV (h : Custody s B hand) (CVID : Option Nat) :
    Serves s B (serverDoDestroyCV CVID s).2 (serverDoDestroyCV CVID s).1 hand := by
  have hsilent : Silent [] := fun o ho => by cases ho
  unfold serverDoDestroyCV
  cases hcv : s.serverCVs.get? CVID with
  | none => exact of_silent hsilent h rfl (fun queue => by simp [entered, left]) fun _ _ hx => hx
  | some cv =>
    have hput : Serves s B [] (s.putCV CVID
        { cv with createCVCount := cv.createCVCount - 1 }) hand := putCV h hcv rfl rfl
    have hcustody := hput.custody
    rw [hsilent.unanswered] at hcustody
    exact after_silent hsilent h.apart hput (checkCVAndDestroy hcustody CVID)

/-! ## Requests of a lone server -/

/-- A lone server runs a request itself, at the index it has here. -/
theorem serve_lone {r : Request} {id : Nat} (hothers : s.others = []) (hid : r.id = some id)
    (c : Sender) :
    ∃ k, serve c r s = execute r (r.myIndex s) c { s with pendingRequestCount := k } := by
  by_cases howner : owner id = s.netAddr
  · refine ⟨s.pendingRequestCount, ?_⟩
    rw [serve_mine hid c howner, myIndex_eq hid, if_pos howner]
  · refine ⟨s.pendingRequestCount + 1, ?_⟩
    rw [serve_alone hid c howner hothers, myIndex_eq hid, if_neg howner]
    rfl

/-- Running a request, with the record of it. -/
theorem execute {r : Request} {index : Option Nat} {c : Sender} {k : Nat} (h : Custody s B hand)
    {hand' : List Sender}
    (hdo : Custody { s with pendingRequestCount := k } B hand →
      Serves { s with pendingRequestCount := k } B
        (serverDo r index c { s with pendingRequestCount := k }).2
        (serverDo r index c { s with pendingRequestCount := k }).1 hand') :
    Serves s B (execute r index c { s with pendingRequestCount := k }).2
      (Net.execute r index c { s with pendingRequestCount := k }).1 hand' := by
  have hk := h.renumber k
  have hserves := after_silent (fun o ho => by rw [List.mem_singleton.mp ho]; rfl) h.apart
    (exec hk index c r) (hdo hk)
  exact ⟨hserves.custody, hserves.netAddr, hserves.fifo, hserves.granted, hserves.recorded,
    hserves.only, hserves.once⟩

/-- The release that a wait starts. -/
theorem nestedRelease (h : Custody s B hand) (lockID : Nat) (c : Sender) :
    Serves s B (startNested c (.release lockID) s).2 (startNested c (.release lockID) s).1 hand := by
  obtain ⟨k, hk⟩ := serve_lone (r := .release lockID) h.others rfl c
  have hserve : Serves s B (serve c (.release lockID) s).2 (serve c (.release lockID) s).1 hand := by
    rw [hk]
    exact execute h fun hk => release hk _ c
  exact after_silent (fun o ho => by rw [List.mem_singleton.mp ho]; rfl) h.apart
    (nested h c _) hserve

/-- The acquire that a signal or a broadcast starts for the client it woke up. -/
theorem nestedAcquire (lockID : Nat) {c : Sender} {r : Request} (h : Custody s B (c :: hand))
    (hmem : (c, r) ∈ B)
    (hlock : s.serverLocks.get? (checkIfLockIsMineAndGetMyIndex s lockID) = none ∨
      r.waitsFor = some lockID) :
    Serves s B (startNested c (.acquire lockID) s).2 (startNested c (.acquire lockID) s).1 hand ∧
      Keeps s (startNested c (.acquire lockID) s).1 := by
  obtain ⟨k, hk⟩ := serve_lone (r := .acquire lockID) h.others rfl c
  have hlock' : s.serverLocks.get? (checkIfLockIsMineAndGetMyIndex s lockID) = none ∨
      ∃ L, r.waitsFor = some L ∧ checkIfLockIsMineAndGetMyIndex s L =
        checkIfLockIsMineAndGetMyIndex s lockID :=
    hlock.imp_right fun hL => ⟨lockID, hL, rfl⟩
  have hserve : Serves s B (serve c (.acquire lockID) s).2 (serve c (.acquire lockID) s).1 hand := by
    rw [hk]
    exact execute h fun hk => (acquire hk hmem hlock').1
  have hkeeps := (acquire (h.renumber k) hmem hlock').2
  refine ⟨after_silent (fun o ho => by rw [List.mem_singleton.mp ho]; rfl) h.apart
    (nested h c _) hserve, ?_⟩
  change Keeps s (serve c (.acquire lockID) s).1
  rw [hk]
  exact ⟨hkeeps.holds, hkeeps.missing⟩

/-- `serverDoWait`: the client in hand is refused or joins the queue. -/
theorem wait {CVID : Option Nat} {v lockID : Nat} {c : Sender} (h : Custody s B (c :: hand))
    (hmem : (c, .wait v lockID) ∈ B) :
    Serves s B (serverDoWait CVID lockID c s).2 (serverDoWait CVID lockID c s).1 hand := by
  unfold serverDoWait
  cases hcv : s.serverCVs.get? CVID with
  | none => exact refuse h hmem
  | some cv =>
    dsimp only
    by_cases hlock : (if cv.waitingLock = none then some lockID else cv.waitingLock) = some lockID
    · rw [hlock, if_neg (not_not_intro rfl)]
      -- everyone in the queue waits with this lock
      have hold : ∀ x ∈ cv.q, ∃ r L, (x, r) ∈ B ∧ r.waitsFor = some L ∧ some lockID = some L := by
        intro x hx
        obtain ⟨r, L, hr, hL, hwaiting⟩ := h.CVQ CVID cv hcv x hx
        refine ⟨r, L, hr, hL, ?_⟩
        rw [← hlock, hwaiting, if_neg (Option.some_ne_none L)]
      have hpark : Serves s B [.enter (.CV CVID) c]
          (s.putCV CVID { cv with waitingLock := some lockID, q := cv.q ++ [c] }) hand := by
        refine of_silent (fun o ho => ?_) ?_ rfl (fun queue => ?_) fun index x hx => hx
        · rw [List.mem_singleton.mp ho]
          rfl
        · refine h.putCV hcv (fun x hx => ?_) (fun _ => by simp) fun x => ?_
          · rcases List.mem_append.mp hx with hx | hx
            · exact hold x hx
            · cases List.mem_singleton.mp hx
              exact ⟨_, lockID, hmem, rfl, rfl⟩
          · rw [List.countP_append, List.countP_cons, List.countP_cons, List.countP_nil]
            omega
        · rw [queue_putCV hcv]
          by_cases hqueue : queue = .CV CVID
          · subst hqueue
            simp [entered, left, Server.queue, hcv]
          · simp [entered, left, hqueue, Ne.symm hqueue]
      have hsilent : Silent [.enter (.CV CVID) c] := fun o ho => by
        rw [List.mem_singleton.mp ho]
        rfl
      have hcustody := hpark.custody
      rw [hsilent.unanswered] at hcustody
      exact after_silent hsilent h.apart hpark (nestedRelease hcustody lockID c)
    · rw [if_pos hlock]
      exact refuse h hmem

/-- Waking up a client: it leaves the queue, and is answered or joins the queue of the lock. -/
theorem wakeUp {CVID : Option Nat} {cv cv' : ServerCV} {x : Sender} {rest : List Sender}
    (lockID : Nat) (h : Custody s B hand) (hcv : s.serverCVs.get? CVID = some cv')
    (hq : cv'.q = x :: rest) (hwaiting : cv'.waitingLock = cv.waitingLock)
    (hlock : s.serverLocks.get? (checkIfLockIsMineAndGetMyIndex s lockID) = none ∨
      cv.waitingLock = some lockID) :
    Serves s B (wakeUp CVID cv x rest lockID s).2 (wakeUp CVID cv x rest lockID s).1 hand ∧
      Keeps s (Net.wakeUp CVID cv x rest lockID s).1 := by
  obtain ⟨r, L, hmem, hL, hcvL⟩ := h.CVQ CVID cv' hcv x (by rw [hq]; exact List.mem_cons_self)
  have hleave : Serves s B [.leave (.CV CVID) x] (s.putCV CVID
      { cv with q := rest, waitingLock := if rest = [] then none else cv.waitingLock })
      (x :: hand) := by
    refine of_silent (fun o ho => ?_) ?_ rfl (fun queue => ?_) fun index x hx => hx
    · rw [List.mem_singleton.mp ho]
      rfl
    · refine h.putCV hcv (fun y hy => ?_) (fun hne hnil => ?_) fun y => ?_
      · have hne : rest ≠ [] := List.ne_nil_of_mem hy
        dsimp only
        rw [if_neg hne, ← hwaiting]
        exact h.CVQ CVID cv' hcv y (by rw [hq]; exact List.mem_cons_of_mem x hy)
      · exact hne (if_pos hnil)
      · rw [hq, List.countP_cons, List.countP_cons]
        dsimp only
        omega
    · rw [queue_putCV hcv]
      by_cases hqueue : queue = .CV CVID
      · subst hqueue
        simp [entered, left, Server.queue, hcv, hq]
      · simp [entered, left, hqueue, Ne.symm hqueue]
  have hsilent : Silent [.leave (.CV CVID) x] := fun o ho => by
    rw [List.mem_singleton.mp ho]
    rfl
  have hcustody := hleave.custody
  rw [hsilent.unanswered] at hcustody
  obtain ⟨hserves, hkeeps⟩ := nestedAcquire lockID hcustody hmem
    (hlock.imp_right fun heq => by
      rw [hL, ← hcvL, hwaiting, heq])
  exact ⟨after_silent hsilent h.apart hleave hserves, ⟨hkeeps.holds, hkeeps.missing⟩⟩

/-- The loop of `serverDoBroadcast`. -/
theorem broadcastLoop {CVID : Option Nat} {cv cv' : ServerCV} {lockID : Nat} {q : List Sender}
    (h : Custody s B hand) (hcv : s.serverCVs.get? CVID = some cv') (hq : cv'.q = q)
    (hwaiting : q ≠ [] → cv'.waitingLock = cv.waitingLock)
    (hlock : s.serverLocks.get? (checkIfLockIsMineAndGetMyIndex s lockID) = none ∨
      (q ≠ [] → cv.waitingLock = some lockID)) :
    Serves s B (broadcastLoop CVID cv lockID q s).2 (broadcastLoop CVID cv lockID q s).1 hand ∧
      Keeps s (Net.broadcastLoop CVID cv lockID q s).1 := by
  induction q generalizing s B cv' with
  | nil =>
    exact ⟨of_silent (fun o ho => by cases ho) h rfl (fun queue => by
      simp [Net.broadcastLoop, entered, left]) fun index x hx => hx, .refl s⟩
  | cons x rest ih =>
    obtain ⟨hserves, hkeeps⟩ := wakeUp lockID h hcv hq
      (hwaiting (List.cons_ne_nil x rest)) (hlock.imp_right fun hl => hl (List.cons_ne_nil x rest))
    have hcv' : (Net.wakeUp CVID cv x rest lockID s).1.serverCVs.get? CVID = some
        { cv with q := rest, waitingLock := if rest = [] then none else cv.waitingLock } := by
      rw [wakeUp_CVs]
      exact Table.get?_put_self hcv
    have hlock' : (Net.wakeUp CVID cv x rest lockID s).1.serverLocks.get?
        (checkIfLockIsMineAndGetMyIndex (Net.wakeUp CVID cv x rest lockID s).1 lockID) = none ∨
          (rest ≠ [] → cv.waitingLock = some lockID) := by
      rw [myLock_congr hserves.netAddr]
      exact hlock.imp (hkeeps.missing _) fun hl _ => hl (List.cons_ne_nil x rest)
    obtain ⟨hloop, hkeep⟩ := ih hserves.custody hcv' rfl (fun hne => if_neg hne) hlock'
    exact ⟨hserves.trans h.apart hloop fun index y _ => hkeep.holds index y, hkeeps.trans hkeep⟩

/-- Code that ends with a success to the client in hand, whose request was for no lock. -/
theorem finish {o₁ : List Out} {s₁ : Server} {c : Sender} {r : Request} (hapart : Apart B)
    (h₁ : Serves s B o₁ s₁ (c :: hand)) (hmem : (c, r) ∈ B) (hr : r.waitsFor = none) (a : Answer) :
    Serves s B (o₁ ++ (sendAnswer c a s₁).2) s₁ hand := by
  -- the client is in hand, so it has not been answered yet
  have hpos : 0 < (unanswered o₁ B).countP (·.1.same c) := by
    have := h₁.custody.placed c
    rw [List.countP_cons, Sender.same_refl, if_pos rfl] at this
    omega
  obtain ⟨b, hb, hsame⟩ := List.countP_pos_iff.mp hpos
  cases hapart.eq (mem_unanswered.mp hb).1 hmem hsame
  refine h₁.trans hapart (answer h₁.custody hb a fun _ L hL => ?_) fun index x _ hx => hx
  cases hr.symm.trans hL

/-- `serverDoSignal`, for the client in hand. -/
theorem signal {CVID : Option Nat} {v lockID : Nat} {c : Sender} (h : Custody s B (c :: hand))
    (hmem : (c, .signal v lockID) ∈ B) :
    Serves s B (serverDoSignal CVID lockID c s).2 (serverDoSignal CVID lockID c s).1 hand := by
  have hanswer : ∀ a, Serves s B (sendAnswer c a s).2 s hand :=
    fun a => answer h hmem a fun _ L hL => by cases hL
  unfold serverDoSignal
  cases hcv : s.serverCVs.get? CVID with
  | none => exact hanswer _
  | some cv =>
    dsimp only
    cases hwaiting : cv.waitingLock with
    | none => exact hanswer _
    | some waitingLock =>
      dsimp only
      split
      · exact hanswer _
      · rename_i heq
        rw [ne_eq, not_not] at heq
        cases hq : cv.q with
        | nil => exact absurd hq (h.waiting CVID cv hcv (by rw [hwaiting]; simp))
        | cons x rest =>
          exact (wakeUp lockID h hcv hq rfl (.inr (by rw [hwaiting, heq]))).1.finish h.apart hmem rfl _

/-- `serverDoBroadcast`, for the client in hand, when it names the lock that the clients in
the queue wait for, or no lock at all. -/
theorem broadcast {CVID : Option Nat} {v lockID : Nat} {c : Sender}
    (h : Custody s B (c :: hand)) (hmem : (c, .broadcast v lockID) ∈ B)
    (hlock : s.serverLocks.get? (checkIfLockIsMineAndGetMyIndex s lockID) = none ∨
      ∀ cv, s.serverCVs.get? CVID = some cv → cv.q ≠ [] → cv.waitingLock = some lockID) :
    Serves s B (serverDoBroadcast CVID lockID c s).2 (serverDoBroadcast CVID lockID c s).1 hand := by
  unfold serverDoBroadcast
  cases hcv : s.serverCVs.get? CVID with
  | none => exact answer h hmem _ fun _ L hL => by cases hL
  | some cv =>
    exact (broadcastLoop h hcv rfl (fun _ => rfl) (hlock.imp_right fun hl => hl cv hcv)).1.finish
      h.apart hmem rfl _

end Serves

end Nachos.Net

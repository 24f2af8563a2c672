import Nachos.Net.Handed
import Nachos.Net.Trace

/-!
# Who is answered

A server answers the client whose request it runs, a client that leaves the queue of a lock,
and a client that it starts a request for, which was in the queue of a condition variable.
So if all queued clients have a property `B`, code that is run for a client with `B` answers
only clients with `B` (`Told`), and leaves the monitor variables alone unless the request
is about one.
-/

namespace Nachos.Net

/-- The clients in the queues of the server have the property. -/
structure QueuedIn (B : Sender → Prop) (s : Server) : Prop where
  locks : ∀ l, some l ∈ s.serverLocks.entries → ∀ x ∈ l.q, B x
  CVs : ∀ x, Waiting s x → B x

theorem QueuedIn.of_tables {B : Sender → Prop} {s s' : Server} (h : QueuedIn B s)
    (hlocks : s'.serverLocks = s.serverLocks) (hCVs : s'.serverCVs = s.serverCVs) :
    QueuedIn B s' := by
  refine ⟨fun l hl => h.locks l (hlocks ▸ hl), ?_⟩
  rintro x ⟨cv, hcv, hx⟩
  exact h.CVs x ⟨cv, hCVs ▸ hcv, hx⟩

theorem QueuedIn.mono {B C : Sender → Prop} {s : Server} (h : QueuedIn B s)
    (hsub : ∀ x, B x → C x) : QueuedIn C s :=
  ⟨fun l hl x hx => hsub x (h.locks l hl x hx), fun x hx => hsub x (h.CVs x hx)⟩

/-- Code that queues and answers only clients with the property, runs nothing but what it
starts for them, and leaves the monitor variables alone. -/
structure Told (B : Sender → Prop) (s : Server) (out : List Out) (s' : Server) : Prop where
  queued : QueuedIn B s → QueuedIn B s'
  answers : QueuedIn B s → ∀ dst x a, Out.mail dst (.answer x a) ∈ out → B x
  runs : ∀ index x r, Out.exec index x r ∈ out → r.nestable = true
  MVs : s'.serverMVs = s.serverMVs

namespace Told

variable {B : Sender → Prop} {s s₁ s₂ : Server} {o₁ o₂ : List Out}

theorem trans (h₁ : Told B s o₁ s₁) (h₂ : Told B s₁ o₂ s₂) : Told B s (o₁ ++ o₂) s₂ where
  queued h := h₂.queued (h₁.queued h)
  answers h dst x a ho := by
    rcases List.mem_append.mp ho with ho | ho
    · exact h₁.answers h dst x a ho
    · exact h₂.answers (h₁.queued h) dst x a ho
  runs index x r ho := by
    rcases List.mem_append.mp ho with ho | ho
    · exact h₁.runs index x r ho
    · exact h₂.runs index x r ho
  MVs := h₂.MVs.trans h₁.MVs

/-- Nobody is answered and nothing is run. -/
theorem silent (hlocks : s₁.serverLocks = s.serverLocks) (hCVs : s₁.serverCVs = s.serverCVs)
    (hMVs : s₁.serverMVs = s.serverMVs) (hanswers : ∀ dst x a, Out.mail dst (.answer x a) ∉ o₁)
    (hruns : ∀ index x r, Out.exec index x r ∈ o₁ → r.nestable = true) : Told B s o₁ s₁ :=
  ⟨fun h => h.of_tables hlocks hCVs, fun _ dst x a ho => absurd ho (hanswers dst x a), hruns, hMVs⟩

theorem refl (s : Server) : Told B s [] s :=
  silent rfl rfl rfl (by simp) (by simp)

theorem sendAnswer {c : Sender} (hc : B c) (a : Answer) (s : Server) :
    Told B s (sendAnswer c a s).2 (Net.sendAnswer c a s).1 := by
  refine ⟨id, fun _ dst x a' ho => ?_, by simp [Net.sendAnswer], rfl⟩
  cases List.mem_singleton.mp ho
  exact hc

theorem locks {t : Table ServerLock}
    (ht : QueuedIn B s → ∀ l, some l ∈ t.entries → ∀ x ∈ l.q, B x) :
    Told B s [] { s with serverLocks := t } :=
  ⟨fun h => ⟨ht h, h.CVs⟩, by simp, by simp, rfl⟩

theorem putLock {lockID : Option Nat} {l l' : ServerLock}
    (hl : s.serverLocks.get? lockID = some l) (hq : (∀ x ∈ l.q, B x) → ∀ x ∈ l'.q, B x) :
    Told B s [] (s.putLock lockID l') := by
  refine locks fun h l₁ hl₁ => ?_
  rcases Table.mem_put hl₁ with rfl | hold
  · exact hq (h.locks l (Table.mem_of_get? hl))
  · exact h.locks l₁ hold

theorem CVs {t : Table ServerCV}
    (ht : QueuedIn B s → ∀ cv, some cv ∈ t.entries → ∀ x ∈ cv.q, B x) :
    Told B s [] { s with serverCVs := t } :=
  ⟨fun h => ⟨h.locks, fun x ⟨cv, hcv, hx⟩ => ht h cv hcv x hx⟩, by simp, by simp, rfl⟩

/-- The queue of a live condition variable. -/
theorem queue {CVID : Option Nat} {cv : ServerCV} (hcv : s.serverCVs.get? CVID = some cv)
    (h : QueuedIn B s) : ∀ x ∈ cv.q, B x :=
  fun x hx => h.CVs x ⟨cv, Table.mem_of_get? hcv, hx⟩

theorem putCV {CVID : Option Nat} {cv : ServerCV} (hq : QueuedIn B s → ∀ x ∈ cv.q, B x) :
    Told B s [] (s.putCV CVID cv) := by
  refine CVs fun h cv' hcv' => ?_
  rcases Table.mem_put hcv' with rfl | hold
  · exact hq h
  · exact fun x hx => h.CVs x ⟨cv', hold, hx⟩

/-! ### Locks -/

theorem checkLockAndDestroy (lockID : Option Nat) (s : Server) :
    Told B s (checkLockAndDestroy lockID s).2 (Net.checkLockAndDestroy lockID s).1 := by
  unfold Net.checkLockAndDestroy
  split
  · exact refl s
  · split
    · exact locks fun h l hl => h.locks l (Table.mem_remove hl)
    · exact refl s

theorem acquire (lockID : Option Nat) {c : Sender} (hc : B c) (s : Server) :
    Told B s (serverDoAcquireLock lockID c s).2 (serverDoAcquireLock lockID c s).1 := by
  unfold serverDoAcquireLock
  split
  · exact sendAnswer hc _ s
  · rename_i l hl
    split
    · exact sendAnswer hc _ s
    · split
      · have hput : Told B s [] (s.putLock lockID { l with q := l.q ++ [c] }) := by
          refine putLock hl fun h x hx => ?_
          rcases List.mem_append.mp hx with hx | hx
          · exact h x hx
          · rw [List.mem_singleton.mp hx]
            exact hc
        exact hput.trans (silent rfl rfl rfl (by simp) (by simp))
      · have hput : Told B s [] (s.putLock lockID { l with state := .BUSY, owner := c }) :=
          putLock hl id
        exact hput.trans (sendAnswer hc _ _)

theorem release (lockID : Option Nat) (c : Sender) (s : Server) :
    Told B s (serverDoReleaseLock lockID c s).2 (serverDoReleaseLock lockID c s).1 := by
  unfold serverDoReleaseLock
  split
  · exact refl s
  · rename_i l hl
    split
    · split
      · -- the lock is handed over to the first client in its queue
        rename_i r rest hq
        have hqueue : QueuedIn B s → ∀ x ∈ r :: rest, B x :=
          fun h => hq ▸ h.locks l (Table.mem_of_get? hl)
        refine ⟨fun h => ?_, fun h dst x a ho => ?_, by simp [Net.sendAnswer], rfl⟩
        · have hput : Told B s [] (s.putLock lockID { l with owner := r, q := rest }) :=
            putLock hl fun h x hx => h x (hq ▸ List.mem_cons_of_mem r hx)
          exact hput.queued h
        · simp only [Act.andThen_apply, Act.emit_apply, Net.sendAnswer, List.mem_append,
            List.mem_singleton, reduceCtorEq, false_or] at ho
          cases ho
          exact hqueue h _ List.mem_cons_self
      · have hput : Told B s [] (s.putLock lockID { l with state := .FREE }) :=
          putLock hl id
        exact hput.trans (checkLockAndDestroy _ _)
    · exact refl s

theorem destroyLock (lockID : Option Nat) (s : Server) :
    Told B s (serverDoDestroyLock lockID s).2 (serverDoDestroyLock lockID s).1 := by
  unfold serverDoDestroyLock
  split
  · exact refl s
  · rename_i l hl
    have hput : Told B s [] (s.putLock lockID
        { l with isToBeDestroyed := true, createLockCount := l.createLockCount - 1 }) :=
      putLock hl id
    exact hput.trans (checkLockAndDestroy _ _)

/-- An Acquire or Release that is started for a client with the property. -/
theorem nested {r : Request} (hr : r.nestable = true) {c : Sender} (hc : B c) (s : Server) :
    Told B s (serve c r s).2 (serve c r s).1 := by
  obtain ⟨id, hid⟩ : ∃ id, r.id = some id := by
    cases r <;> first | exact ⟨_, rfl⟩ | cases hr
  have hrun : ∀ index s, Told B s (Net.execute r index c s).2 (Net.execute r index c s).1 := by
    intro index s
    have hexec : Told B s [.exec index c r] s :=
      silent rfl rfl rfl (by simp) fun _ _ _ ho => by
        cases List.mem_singleton.mp ho
        exact hr
    refine hexec.trans ?_
    cases r with
    | acquire lockID => exact acquire index hc s
    | release lockID => exact release index c s
    | _ => cases hr
  by_cases howner : owner id = s.netAddr
  · rw [serve_mine hid c howner]
    exact hrun _ s
  · by_cases hothers : s.others = []
    · rw [serve_alone hid c howner hothers]
      have hnumber : Told B s [] (useNumber s).1 := silent rfl rfl rfl (by simp) (by simp)
      exact hnumber.trans (hrun none _)
    · rw [serve_away hid c howner hothers]
      exact silent rfl rfl rfl (by simp [askOthers]) (by simp [askOthers])

/-- A client enters or leaves a queue, and a request is started for it. -/
theorem moved {o : Out} (hmail : ∀ dst body, o ≠ .mail dst body)
    (hexec : ∀ index x r, o ≠ .exec index x r) {r : Request} (hr : r.nestable = true)
    {c : Sender} (hc : B c) (s : Server) :
    Told B s (Act.andThen (.emit o) (.andThen (.emit (.nested c r)) (serve c r)) s).2
      (Act.andThen (.emit o) (.andThen (.emit (.nested c r)) (serve c r)) s).1 := by
  have hfirst : Told B s [o] s := by
    refine silent rfl rfl rfl (fun dst x a ho => ?_) fun index x r ho => ?_
    · exact hmail dst _ (List.mem_singleton.mp ho).symm
    · exact absurd (List.mem_singleton.mp ho).symm (hexec index x r)
  have hsecond : Told B s [.nested c r] s := silent rfl rfl rfl (by simp) (by simp)
  exact hfirst.trans (hsecond.trans (nested hr hc s))

/-! ### Condition variables -/

theorem checkCVAndDestroy (CVID : Option Nat) (s : Server) :
    Told B s (checkCVAndDestroy CVID s).2 (Net.checkCVAndDestroy CVID s).1 := by
  unfold Net.checkCVAndDestroy
  split
  · exact refl s
  · split
    · exact CVs fun h cv hcv x hx => h.CVs x ⟨cv, Table.mem_remove hcv, hx⟩
    · exact refl s

theorem destroyCV (CVID : Option Nat) (s : Server) :
    Told B s (serverDoDestroyCV CVID s).2 (serverDoDestroyCV CVID s).1 := by
  unfold serverDoDestroyCV
  split
  · exact refl s
  · rename_i cv hcv
    have hput : Told B s [] (s.putCV CVID { cv with createCVCount := cv.createCVCount - 1 }) :=
      putCV fun h x hx => queue hcv h x hx
    exact hput.trans (checkCVAndDestroy _ _)

theorem wait (CVID : Option Nat) (lockID : Nat) {c : Sender} (hc : B c) (s : Server) :
    Told B s (serverDoWait CVID lockID c s).2 (serverDoWait CVID lockID c s).1 := by
  unfold serverDoWait
  cases hcv : s.serverCVs.get? CVID with
  | none => exact sendAnswer hc _ s
  | some cv =>
    by_cases hlock : (if cv.waitingLock = none then some lockID else cv.waitingLock) = some lockID
    · simp only [hlock, ne_eq, not_true_eq_false, if_false]
      have hput : Told B s [] (s.putCV CVID
          { cv with waitingLock := some lockID, q := cv.q ++ [c] }) := by
        refine putCV fun h x hx => ?_
        rcases List.mem_append.mp hx with hx | hx
        · exact queue hcv h x hx
        · rw [List.mem_singleton.mp hx]
          exact hc
      exact hput.trans (moved (r := .release lockID) (by simp) (by simp) rfl hc _)
    · simp only [hlock, ne_eq, not_false_eq_true, if_true]
      exact sendAnswer hc _ s

theorem wakeUp (CVID : Option Nat) (cv : ServerCV) {x : Sender} {rest : List Sender}
    (hq : ∀ y ∈ x :: rest, B y) (lockID : Nat) (s : Server) :
    Told B s (wakeUp CVID cv x rest lockID s).2 (Net.wakeUp CVID cv x rest lockID s).1 := by
  have hput : Told B s [] (s.putCV CVID
      { cv with q := rest, waitingLock := if rest = [] then none else cv.waitingLock }) :=
    putCV fun _ y hy => hq y (List.mem_cons_of_mem x hy)
  exact hput.trans
    (moved (r := .acquire lockID) (by simp) (by simp) rfl (hq x List.mem_cons_self) _)

theorem broadcastLoop (CVID : Option Nat) (cv : ServerCV) (lockID : Nat) {q : List Sender}
    (hq : ∀ y ∈ q, B y) (s : Server) : Told B s (broadcastLoop CVID cv lockID q s).2
      (Net.broadcastLoop CVID cv lockID q s).1 := by
  induction q generalizing s with
  | nil => exact refl s
  | cons x rest ih =>
    exact (wakeUp CVID cv hq lockID s).trans (ih (fun y hy => hq y (List.mem_cons_of_mem x hy)) _)

/-- What is run and which tables change does not depend on who is queued. -/
theorem of_queued {out : List Out} (hany : Told (fun _ => True) s out s₁)
    (h : QueuedIn B s → Told B s out s₁) : Told B s out s₁ :=
  ⟨fun hq => (h hq).queued hq, fun hq => (h hq).answers hq, hany.runs, hany.MVs⟩

theorem signal_of {CVID : Option Nat} (lockID : Nat) {c : Sender} (hc : B c) {s : Server}
    (hq : ∀ cv, s.serverCVs.get? CVID = some cv → ∀ x ∈ cv.q, B x) :
    Told B s (serverDoSignal CVID lockID c s).2 (serverDoSignal CVID lockID c s).1 := by
  unfold serverDoSignal
  split
  · exact sendAnswer hc _ s
  · rename_i cv hcv
    split
    · exact sendAnswer hc _ s
    · split
      · exact sendAnswer hc _ s
      · split
        · exact silent rfl rfl rfl (by simp) (by simp)
        · rename_i x rest hrest
          exact (wakeUp CVID cv (hrest ▸ hq cv hcv) lockID s).trans (sendAnswer hc _ _)

theorem signal (CVID : Option Nat) (lockID : Nat) {c : Sender} (hc : B c) (s : Server) :
    Told B s (serverDoSignal CVID lockID c s).2 (serverDoSignal CVID lockID c s).1 :=
  of_queued (signal_of lockID trivial fun _ _ _ _ => trivial)
    fun h => signal_of lockID hc fun _ hcv => queue hcv h

theorem broadcast_of {CVID : Option Nat} (lockID : Nat) {c : Sender} (hc : B c) {s : Server}
    (hq : ∀ cv, s.serverCVs.get? CVID = some cv → ∀ x ∈ cv.q, B x) :
    Told B s (serverDoBroadcast CVID lockID c s).2 (serverDoBroadcast CVID lockID c s).1 := by
  unfold serverDoBroadcast
  split
  · exact sendAnswer hc _ s
  · rename_i cv hcv
    exact (broadcastLoop CVID cv lockID (hq cv hcv) s).trans (sendAnswer hc _ _)

theorem broadcast (CVID : Option Nat) (lockID : Nat) {c : Sender} (hc : B c) (s : Server) :
    Told B s (serverDoBroadcast CVID lockID c s).2 (serverDoBroadcast CVID lockID c s).1 :=
  of_queued (broadcast_of lockID trivial fun _ _ _ _ => trivial)
    fun h => broadcast_of lockID hc fun _ hcv => queue hcv h

end Told

/-- The requests about monitor variables. -/
def Request.isMV : Request → Bool
  | .set _ _ _ | .get _ _ | .destroyMV _ => true
  | _ => false

/-- **A request about a lock or a condition variable**, run for a client with the property. -/
theorem Told.serverDo {B : Sender → Prop} {r : Request} (hr : r.isMV = false)
    (index : Option Nat) {c : Sender} (hc : B c) (s : Server) :
    Told B s (serverDo r index c s).2 (serverDo r index c s).1 := by
  cases r with
  | acquire lockID => exact acquire index hc s
  | release lockID => exact release index c s
  | destroyLock lockID => exact destroyLock index s
  | wait CVID lockID => exact wait index lockID hc s
  | signal CVID lockID => exact signal index lockID hc s
  | broadcast CVID lockID => exact broadcast index lockID hc s
  | destroyCondition CVID => exact destroyCV index s
  | createLock | createCondition | createMV => exact refl s
  | set | get | destroyMV => cases hr

/-! ## The requests about monitor variables -/

/-- They queue nobody, run nothing else and answer only their client. -/
theorem serverDo_isMV {r : Request} (hr : r.isMV = true) (index : Option Nat) (c : Sender)
    (s : Server) : (serverDo r index c s).1.serverLocks = s.serverLocks ∧
      (serverDo r index c s).1.serverCVs = s.serverCVs ∧
      ∀ o ∈ (serverDo r index c s).2, ∃ a, o = .mail c.machine (.answer c a) := by
  cases r with
  | set MVID i value =>
    simp only [serverDo, serverDoSet]
    split
    · exact ⟨rfl, rfl, fun o ho => ⟨_, List.mem_singleton.mp ho⟩⟩
    · split <;> exact ⟨rfl, rfl, fun o ho => ⟨_, List.mem_singleton.mp ho⟩⟩
  | get MVID i =>
    simp only [serverDo, serverDoGet]
    split
    · exact ⟨rfl, rfl, fun o ho => ⟨_, List.mem_singleton.mp ho⟩⟩
    · split <;> exact ⟨rfl, rfl, fun o ho => ⟨_, List.mem_singleton.mp ho⟩⟩
  | destroyMV MVID =>
    simp only [serverDo, serverDoDestroyMV]
    split
    · exact ⟨rfl, rfl, fun o ho => by cases ho⟩
    · split <;> exact ⟨rfl, rfl, fun o ho => by cases ho⟩
  | _ => cases hr

/-! ## Handling a mail -/

/-- A create queues nobody and answers its client. -/
theorem serverDoCreate_told {B : Sender → Prop} (r : Request) {c : Sender} (hc : B c)
    {s : Server} (h : QueuedIn B s) : QueuedIn B (serverDoCreate r c s).1 ∧
      ∀ dst x a, Out.mail dst (.answer x a) ∈ (serverDoCreate r c s).2 → B x := by
  have hcrash : ∀ (b : Bool) dst x a, Out.mail dst (.answer x a) ∉ if b then [.crash] else [] := by
    intro b dst x a
    cases b <;> simp
  have hanswer : ∀ {out : List Out} {a' : Answer} {s' : Server},
      (∀ dst x a, Out.mail dst (.answer x a) ∉ out) → ∀ dst x a,
      Out.mail dst (.answer x a) ∈ .exec none c r :: (out ++ (sendAnswer c a' s').2) → B x := by
    intro out a' s' hout dst x a ho
    rcases List.mem_cons.mp ho with ho | ho
    · cases ho
    · rcases List.mem_append.mp ho with ho | ho
      · exact absurd ho (hout dst x a)
      · cases List.mem_singleton.mp ho
        exact hc
  cases r with
  | createLock name =>
    have hlock : QueuedIn B (createLockNamed name s).1 ∧
        ∀ dst x a, Out.mail dst (.answer x a) ∉ (createLockNamed name s).2.2 := by
      unfold createLockNamed
      split
      · refine ⟨⟨fun l hl x hx => ?_, h.CVs⟩, hcrash _⟩
        rcases Table.mem_insert hl with rfl | hold
        · cases hx
        · exact h.locks l hold x hx
      · split
        · rename_i l hl
          have hput : Told B s [] (s.putLock _ { l with createLockCount := l.createLockCount + 1 }) :=
            .putLock hl id
          exact ⟨hput.queued h, by simp⟩
        · exact ⟨h, by simp⟩
    exact ⟨hlock.1, hanswer hlock.2⟩
  | createCondition name =>
    have hCV : QueuedIn B (createCVNamed name s).1 ∧
        ∀ dst x a, Out.mail dst (.answer x a) ∉ (createCVNamed name s).2.2 := by
      unfold createCVNamed
      split
      · refine ⟨⟨h.locks, ?_⟩, hcrash _⟩
        rintro x ⟨cv, hcv, hx⟩
        rcases Table.mem_insert hcv with rfl | hold
        · cases hx
        · exact h.CVs x ⟨cv, hold, hx⟩
      · split
        · rename_i cv hcv
          have hq : QueuedIn B s → ∀ x ∈ cv.q, B x := Told.queue hcv
          refine ⟨Told.queued (Told.putCV ?_) h, by simp⟩
          exact hq
        · exact ⟨h, by simp⟩
    exact ⟨hCV.1, hanswer hCV.2⟩
  | createMV name size =>
    have hMV : QueuedIn B (createMV name size s).1 ∧
        ∀ dst x a, Out.mail dst (.answer x a) ∉ (createMV name size s).2.2 := by
      unfold createMV
      split
      · exact ⟨h.of_tables rfl rfl, hcrash _⟩
      · split
        · split
          · exact ⟨h, by simp⟩
          · exact ⟨h.of_tables rfl rfl, by simp⟩
        · exact ⟨h, by simp⟩
    exact ⟨hMV.1, hanswer hMV.2⟩
  | _ => exact ⟨h, by simp [serverDoCreate]⟩

/-- **Who is answered when a mail is handled**: clients with the property, if those have it
whose requests are run; but the client of a request about a monitor variable need not. -/
theorem receive_told {B : Sender → Prop} {src : Nat} {body : Body} {s : Server}
    (hexec : ∀ index x r, Out.exec index x r ∈ (receive src body s).2 → r.isMV = false → B x)
    (h : QueuedIn B s) : QueuedIn B (receive src body s).1 ∧
      ∀ dst x a, Out.mail dst (.answer x a) ∈ (receive src body s).2 →
        B x ∨ ∃ index r, body.runs s = some (index, x, r) ∧ r.isMV = true := by
  cases hruns : body.runs s with
  | none =>
    have hidle := receive_idle (R := fun s out s' =>
      (∀ index x r, Out.exec index x r ∈ out → r.isMV = false → B x) → QueuedIn B s →
        QueuedIn B s' ∧ ∀ dst x a, Out.mail dst (.answer x a) ∈ out → B x) ?_ ?_ ?_ src hruns hexec h
    · exact ⟨hidle.1, fun dst x a ho => .inl (hidle.2 dst x a ho)⟩
    · intro s o s₁ o₁ s₂ h₁ h₂ hexec h
      have hfirst := h₁ (fun index x r ho => hexec index x r (List.mem_append_left _ ho)) h
      have hsecond := h₂ (fun index x r ho => hexec index x r (List.mem_append_right _ ho)) hfirst.1
      refine ⟨hsecond.1, fun dst x a ho => ?_⟩
      rcases List.mem_append.mp ho with ho | ho
      · exact hfirst.2 dst x a ho
      · exact hsecond.2 dst x a ho
    · exact fun s out s' hsame hout _ h =>
        ⟨h.of_tables hsame.locks hsame.CVs, fun dst x a ho => absurd (hout _ ho) id⟩
    · intro r c hr s hexec h
      refine serverDoCreate_told r (hexec none c r List.mem_cons_self ?_) h
      cases r <;> first | rfl | cases hr
  | some e =>
    obtain ⟨index, c, r⟩ := e
    obtain ⟨-, s₁, pre, hbefore, hpre, hout, hafter⟩ := receive_runs src hruns
    have hs₁ : QueuedIn B s₁ := h.of_tables hbefore.locks hbefore.CVs
    have hmem : Out.exec index c r ∈ (receive src body s).2 := by
      rw [hout]
      exact List.mem_append_right _ List.mem_cons_self
    -- an answer is not among the mails before the run, nor is it the record of the run
    have hanswer : ∀ dst x a, Out.mail dst (.answer x a) ∈ (receive src body s).2 →
        Out.mail dst (.answer x a) ∈ (serverDo r index c s₁).2 := by
      intro dst x a ho
      rw [hout] at ho
      rcases List.mem_append.mp ho with ho | ho
      · exact absurd (hpre _ ho) id
      · rcases List.mem_cons.mp ho with ho | ho
        · cases ho
        · exact ho
    cases hr : r.isMV with
    | false =>
      have htold := Told.serverDo hr index (hexec index c r hmem hr) s₁
      refine ⟨?_, fun dst x a ho => .inl (htold.answers hs₁ dst x a (hanswer dst x a ho))⟩
      exact (htold.queued hs₁ : QueuedIn B (execute r index c s₁).1).of_tables hafter.locks
        hafter.CVs
    | true =>
      obtain ⟨hlocks, hCVs, hone⟩ := serverDo_isMV hr index c s₁
      refine ⟨?_, fun dst x a ho => .inr ⟨index, r, ?_, hr⟩⟩
      · exact (hs₁.of_tables hlocks hCVs : QueuedIn B (execute r index c s₁).1).of_tables
          hafter.locks hafter.CVs
      · obtain ⟨a', heq⟩ := hone _ (hanswer dst x a ho)
        cases heq
        rfl

/-! ## Over a run -/

/-- The request is one that the client sent, or was started for it while it waited. -/
def Claimed (sent : List (Sender × Request)) (c : Sender) (r : Request) : Prop :=
  (∃ r₀, (c, r₀) ∈ sent ∧ r₀.read = r) ∨ r.nestable = true ∧ Waiter sent c

/-- The client sent another request than one about a monitor variable. -/
def NotMV (sent : List (Sender × Request)) (x : Sender) : Prop :=
  ∃ r, (x, r) ∈ sent ∧ r.isMV = false

/-- What every run keeps of requests, clients and answers. -/
structure Known (n : Network) : Prop where
  numbered : Numbered n
  traced : Traced n
  handed : Handed (Claimed n.sent) (Waiter n.sent) n
  queued : ∀ j, QueuedIn (NotMV n.sent) (n.server j)
  answered : ∀ j dst x a, (j, Out.mail dst (.answer x a)) ∈ n.log → ∃ r, (x, r) ∈ n.sent ∧
    (r.isMV = true → ∃ j' index, (j', Out.exec index x r) ∈ n.log)

theorem known_init (up : Nat → Bool) : Known (.init up) where
  numbered := numbered_init up
  traced := traced_init up
  handed := handed_init _ _ up
  queued _ := by
    constructor
    · intro l hl
      cases hl
    · intro x hx
      obtain ⟨cv, hcv, -⟩ := hx
      cases hcv
  answered _ _ _ _ h := by cases h

theorem read_isMV (r : Request) : r.read.isMV = r.isMV := by
  cases r <;> rfl

theorem Claimed.notMV {sent : List (Sender × Request)} {c : Sender} {r : Request}
    (h : Claimed sent c r) (hr : r.isMV = false) : NotMV sent c := by
  rcases h with ⟨r₀, hsent, rfl⟩ | ⟨-, CVID, lockID, hsent⟩
  · exact ⟨r₀, hsent, by rw [← read_isMV, hr]⟩
  · exact ⟨_, hsent, rfl⟩

/-- A request about a monitor variable is one that its client sent. -/
theorem Claimed.sent {sent : List (Sender × Request)} {c : Sender} {r : Request}
    (h : Claimed sent c r) (hr : r.isMV = true) : (c, r) ∈ sent := by
  rcases h with ⟨r₀, hsent, rfl⟩ | ⟨hnest, -⟩
  · have hread : r₀.read = r₀ := by
      rw [read_isMV] at hr
      cases r₀ <;> first | rfl | cases hr
    rw [hread]
    exact hsent
  · cases r with
    | set | get | destroyMV => cases hnest
    | _ => cases hr

theorem Claimed.mono {sent sent' : List (Sender × Request)} (hsub : ∀ e ∈ sent, e ∈ sent')
    {c : Sender} {r : Request} (h : Claimed sent c r) : Claimed sent' c r := by
  rcases h with ⟨r₀, hsent, hread⟩ | ⟨hr, hwaiter⟩
  · exact .inl ⟨r₀, hsub _ hsent, hread⟩
  · exact .inr ⟨hr, hwaiter.mono hsub⟩

/-- The requests that are run while a mail is handled are claimed by their clients. -/
theorem claimed_of_exec {n : Network} {i : Nat} {f : Act} {A : Sender → Prop}
    (h : Handed (Claimed n.sent) A (n.run i f)) (index : Option Nat) (x : Sender) (r : Request)
    (ho : Out.exec index x r ∈ (f (n.server i)).2) : Claimed n.sent x r :=
  h.log (i, .exec index x r) (List.mem_append_right _ (List.mem_map.mpr ⟨_, ho, rfl⟩))

theorem known_step {n n' : Network} {op : Op} (h : Known n) (hstep : NetStep n op n') :
    Known n' := by
  have hsub : ∀ e ∈ n.sent, e ∈ n'.sent := by
    cases netStep_spec hstep with
    | send => exact fun e he => List.mem_append_left _ he
    | deliver | take => exact fun e he => he
  have hhanded : Handed (Claimed n'.sent) (Waiter n'.sent) n' := by
    have hgrown := h.handed.mono (fun c r hr => Claimed.mono hsub hr) fun x hx => hx.mono hsub
    refine hgrown.step (fun c r hr hc => .inr ⟨hr, hc⟩) (fun c CVID lockID hr => ?_) h.numbered
      ?_ hstep
    · rcases hr with ⟨r₀, hsent, hread⟩ | ⟨hnest, -⟩
      · have hr₀ : r₀ = .wait CVID lockID := by
          cases r₀ <;> first | exact hread | cases hread
        exact ⟨CVID, lockID, hr₀ ▸ hsent⟩
      · cases hnest
    · rintro machine mailbox dst r rfl
      cases netStep_spec hstep with
      | send => exact .inl ⟨r, List.mem_append_right _ (List.mem_singleton.mpr rfl), rfl⟩
  cases netStep_spec hstep with
  | send =>
    refine ⟨numbered_step h.numbered hstep, traced_step h.traced hstep, hhanded,
      fun j => (h.queued j).mono fun x hx => ?_, fun j dst x a ho => ?_⟩
    · obtain ⟨r, hr, hMV⟩ := hx
      exact ⟨r, hsub _ hr, hMV⟩
    · obtain ⟨r, hr, hran⟩ := h.answered j dst x a ho
      exact ⟨r, hsub _ hr, hran⟩
  | take =>
    exact ⟨numbered_step h.numbered hstep, traced_step h.traced hstep, hhanded, h.queued, h.answered⟩
  | @deliver l₁ m l₂ hmails hdst =>
    have hclaimed : ∀ index x r, Out.exec index x r ∈ (receive m.src m.body (n.server m.dst)).2 →
        Claimed n.sent x r :=
      claimed_of_exec (n := n.withMails (l₁ ++ l₂)) hhanded
    have htold := receive_told (fun index x r ho hr => (hclaimed index x r ho).notMV hr)
      (h.queued m.dst)
    refine ⟨numbered_step h.numbered hstep, traced_step h.traced hstep, hhanded, fun j => ?_,
      fun j dst x a ho => ?_⟩
    · by_cases hj : j = m.dst
      · subst hj
        rw [Network.run_server_self]
        exact htold.1
      · rw [Network.run_server_of_ne _ _ _ hj]
        exact h.queued j
    · rcases List.mem_append.mp ho with ho | ho
      · obtain ⟨r, hr, hran⟩ := h.answered j dst x a ho
        refine ⟨r, hr, fun hMV => ?_⟩
        obtain ⟨j', index, hexec⟩ := hran hMV
        exact ⟨j', index, List.mem_append_left _ hexec⟩
      · obtain ⟨o, ho, heq⟩ := List.mem_map.mp ho
        cases heq
        rcases htold.2 dst x a ho with ⟨r, hr, hMV⟩ | ⟨index, r, hruns, hr⟩
        · refine ⟨r, hr, fun htrue => ?_⟩
          rw [hMV] at htrue
          cases htrue
        · obtain ⟨-, s₁, pre, -, -, hout, -⟩ := receive_runs m.src hruns
          have hmem : Out.exec index x r ∈ (receive m.src m.body (n.server m.dst)).2 := by
            rw [hout]
            exact List.mem_append_right _ List.mem_cons_self
          exact ⟨r, (hclaimed index x r hmem).sent hr, fun _ => ⟨m.dst, index,
            List.mem_append_right _ (List.mem_map.mpr ⟨_, hmem, rfl⟩)⟩⟩

end Nachos.Net

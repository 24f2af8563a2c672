import Nachos.Net.System
import Nachos.Net.Tables

/-!
# Rules for server code

What a piece of server code does to the network, and the rules by which an invariant of the
network is carried through it: code that only works on the tables is `Quiet`, and every
`serverDo...` function is quiet but for the requests it starts on behalf of waiting clients
(`serverDo_rule`).
-/

namespace Nachos.Net

/-! ## Running code in the network -/

@[simp] theorem mailsOf_nil (i : Nat) : mailsOf i [] = [] := rfl

@[simp] theorem mailsOf_append (i : Nat) (o₁ o₂ : List Out) :
    mailsOf i (o₁ ++ o₂) = mailsOf i o₁ ++ mailsOf i o₂ :=
  List.filterMap_append

@[simp] theorem mailsOf_mail (i dst : Nat) (body : Body) (out : List Out) :
    mailsOf i (.mail dst body :: out) = ⟨i, dst, body⟩ :: mailsOf i out := rfl

@[simp] theorem mailsOf_exec (i : Nat) (index : Option Nat) (c : Sender) (r : Request)
    (out : List Out) : mailsOf i (.exec index c r :: out) = mailsOf i out := rfl

@[simp] theorem mailsOf_nested (i : Nat) (c : Sender) (r : Request) (out : List Out) :
    mailsOf i (.nested c r :: out) = mailsOf i out := rfl

theorem mailsOf_map (i : Nat) (l : List Nat) (body : Body) :
    mailsOf i (l.map fun dst => .mail dst body) = l.map fun dst => ⟨i, dst, body⟩ := by
  induction l with
  | nil => rfl
  | cons d l ih => rw [List.map_cons, mailsOf_mail, ih, List.map_cons]

theorem mem_mailsOf {i : Nat} {out : List Out} {m : Mail} (h : m ∈ mailsOf i out) :
    m.src = i ∧ Out.mail m.dst m.body ∈ out := by
  obtain ⟨o, ho, hm⟩ := List.mem_filterMap.mp h
  cases o with
  | mail dst body =>
    cases hm
    exact ⟨rfl, ho⟩
  | exec | nested | enter | leave | crash => cases hm

namespace Network

variable (n : Network) (i : Nat) (f g : Act)

@[simp] theorem run_awake : (n.run i f).awake = n.awake := rfl

@[simp] theorem run_sent : (n.run i f).sent = n.sent := rfl

@[simp] theorem run_nextTag : (n.run i f).nextTag = n.nextTag := rfl

@[simp] theorem run_server_self : (n.run i f).server i = (f (n.server i)).1 := by
  simp [run]

theorem run_server_of_ne {j : Nat} (hj : j ≠ i) : (n.run i f).server j = n.server j := by
  simp [run, hj]

theorem run_mails : (n.run i f).mails = n.mails ++ mailsOf i (f (n.server i)).2 := rfl

theorem run_log : (n.run i f).log = n.log ++ (f (n.server i)).2.map (i, ·) := rfl

/-- Code runs piece by piece. -/
theorem run_andThen : n.run i (f.andThen g) = (n.run i f).run i g := by
  simp [run, Function.update_idem]

@[simp] theorem run_skip : n.run i .skip = n := by
  simp [run]

/-- What runs depends only on what the code does to the server. -/
theorem run_congr {f g : Act} (h : f (n.server i) = g (n.server i)) : n.run i f = n.run i g := by
  simp only [run, h]

@[simp] theorem withMails_awake (l : List Mail) : (n.withMails l).awake = n.awake := rfl

@[simp] theorem withMails_server (l : List Mail) : (n.withMails l).server = n.server := rfl

@[simp] theorem withMails_mails (l : List Mail) : (n.withMails l).mails = l := rfl

@[simp] theorem withMails_sent (l : List Mail) : (n.withMails l).sent = n.sent := rfl

@[simp] theorem withMails_log (l : List Mail) : (n.withMails l).log = n.log := rfl

/-- Code that sends nothing commutes with taking mails off the network. -/
theorem run_withMails (l : List Mail) (h : mailsOf i (f (n.server i)).2 = []) :
    (n.withMails l).run i f = (n.run i f).withMails l := by
  simp [run, withMails, h]

@[simp] theorem withMails_nextTag (l : List Mail) : (n.withMails l).nextTag = n.nextTag := rfl

end Network

/-! ## Code that only works on the tables -/

/-- An answer to a client, a move in a queue, or a crash. -/
def Out.plain : Out → Prop
  | .mail _ (.answer _ _) | .enter _ _ | .leave _ _ | .crash => True
  | _ => False

/-- A client waits in the queue of a condition variable. -/
def Waiting (s : Server) (x : Sender) : Prop := ∃ cv, some cv ∈ s.serverCVs.entries ∧ x ∈ cv.q

/-- The tables may have changed and clients may have been answered; who waits now waited
before, or is one of the clients `A`. -/
structure Quiet (A : Sender → Prop) (s : Server) (out : List Out) (s' : Server) : Prop where
  netAddr : s'.netAddr = s.netAddr
  others : s'.others = s.others
  pending : s'.pendingRequests = s.pendingRequests
  count : s'.pendingRequestCount = s.pendingRequestCount
  plain : ∀ o ∈ out, o.plain
  waiting : ∀ x, Waiting s' x → Waiting s x ∨ A x
  tables : s.TablesOk → s'.TablesOk

namespace Quiet

variable {A : Sender → Prop} {s s₁ s₂ : Server} {o₁ o₂ : List Out}

theorem refl (s : Server) : Quiet A s [] s :=
  ⟨rfl, rfl, rfl, rfl, by simp, fun _ => .inl, id⟩

theorem locks {t : Table ServerLock} (hok : s.serverLocks.Ok → t.Ok) :
    Quiet A s [] { s with serverLocks := t } :=
  ⟨rfl, rfl, rfl, rfl, by simp, fun _ => .inl, fun h => ⟨hok h.locks, h.CVs, h.MVs⟩⟩

theorem putLock {lockID : Option Nat} {l l' : ServerLock} (hl : s.serverLocks.get? lockID = some l) :
    Quiet A s [] (s.putLock lockID l') :=
  locks fun h => h.put hl

theorem MVs {t : Table ServerMV} (hok : s.serverMVs.Ok → t.Ok) :
    Quiet A s [] { s with serverMVs := t } :=
  ⟨rfl, rfl, rfl, rfl, by simp, fun _ => .inl, fun h => ⟨h.locks, h.CVs, hok h.MVs⟩⟩

theorem putMV {MVID : Option Nat} {m m' : ServerMV} (hm : s.serverMVs.get? MVID = some m) :
    Quiet A s [] (s.putMV MVID m') :=
  MVs fun h => h.put hm

theorem CVs {t : Table ServerCV} (hok : s.serverCVs.Ok → t.Ok)
    (h : ∀ cv, some cv ∈ t.entries → ∀ x ∈ cv.q, Waiting s x ∨ A x) :
    Quiet A s [] { s with serverCVs := t } :=
  ⟨rfl, rfl, rfl, rfl, by simp, fun x ⟨cv, hcv, hx⟩ => h cv hcv x hx,
    fun h => ⟨h.locks, hok h.CVs, h.MVs⟩⟩

theorem putCV {CVID : Option Nat} {cv cv' : ServerCV} (hcv : s.serverCVs.get? CVID = some cv)
    (h : ∀ x ∈ cv'.q, Waiting s x ∨ A x) : Quiet A s [] (s.putCV CVID cv') := by
  refine CVs (fun h => h.put hcv) fun cv₁ hcv₁ x hx => ?_
  rcases Table.mem_put hcv₁ with rfl | hold
  · exact h x hx
  · exact .inl ⟨cv₁, hold, hx⟩

theorem trans (h₁ : Quiet A s o₁ s₁) (h₂ : Quiet A s₁ o₂ s₂) : Quiet A s (o₁ ++ o₂) s₂ := by
  refine ⟨h₂.netAddr.trans h₁.netAddr, h₂.others.trans h₁.others, h₂.pending.trans h₁.pending,
    h₂.count.trans h₁.count, fun o ho => ?_, fun x hx => ?_, fun h => h₂.tables (h₁.tables h)⟩
  · rcases List.mem_append.mp ho with ho | ho
    · exact h₁.plain o ho
    · exact h₂.plain o ho
  · rcases h₂.waiting x hx with hx | hx
    · exact h₁.waiting x hx
    · exact .inr hx

theorem sendAnswer (c : Sender) (a : Answer) (s : Server) :
    Quiet A s (sendAnswer c a s).2 (Net.sendAnswer c a s).1 := by
  refine ⟨rfl, rfl, rfl, rfl, fun o ho => ?_, fun _ => .inl, id⟩
  rw [List.mem_singleton.mp ho]
  trivial

theorem answer (c : Sender) (a : Answer) (h : Quiet A s o₁ s₁) :
    Quiet A s (o₁ ++ (Net.sendAnswer c a s₁).2) (Net.sendAnswer c a s₁).1 :=
  h.trans (sendAnswer c a s₁)

theorem enter (queue : Queue) (c : Sender) (s : Server) : Quiet A s [.enter queue c] s := by
  refine ⟨rfl, rfl, rfl, rfl, fun o ho => ?_, fun _ => .inl, id⟩
  rw [List.mem_singleton.mp ho]
  trivial

theorem leave (queue : Queue) (c : Sender) (s : Server) : Quiet A s [.leave queue c] s := by
  refine ⟨rfl, rfl, rfl, rfl, fun o ho => ?_, fun _ => .inl, id⟩
  rw [List.mem_singleton.mp ho]
  trivial

theorem checkLockAndDestroy (lockID : Option Nat) (s : Server) :
    Quiet A s (checkLockAndDestroy lockID s).2 (Net.checkLockAndDestroy lockID s).1 := by
  unfold Net.checkLockAndDestroy
  split
  · exact refl s
  · split
    · exact locks fun h => h.remove lockID
    · exact refl s

theorem acquire (lockID : Option Nat) (c : Sender) (s : Server) :
    Quiet A s (serverDoAcquireLock lockID c s).2 (serverDoAcquireLock lockID c s).1 := by
  unfold serverDoAcquireLock
  split
  · exact sendAnswer c _ s
  · rename_i l hl
    split
    · exact sendAnswer c _ s
    · split
      · exact (putLock hl).trans (enter _ c _)
      · exact (putLock hl).answer c _

theorem release (lockID : Option Nat) (c : Sender) (s : Server) :
    Quiet A s (serverDoReleaseLock lockID c s).2 (serverDoReleaseLock lockID c s).1 := by
  unfold serverDoReleaseLock
  split
  · exact refl s
  · rename_i l hl
    split
    · split
      · exact (putLock hl).trans ((leave _ _ _).answer _ _)
      · exact (putLock hl).trans (checkLockAndDestroy _ _)
    · exact refl s

theorem destroyLock (lockID : Option Nat) (s : Server) :
    Quiet A s (serverDoDestroyLock lockID s).2 (serverDoDestroyLock lockID s).1 := by
  unfold serverDoDestroyLock
  split
  · exact refl s
  · rename_i l hl
    exact (putLock hl).trans (checkLockAndDestroy _ _)

theorem checkCVAndDestroy (CVID : Option Nat) (s : Server) :
    Quiet A s (checkCVAndDestroy CVID s).2 (Net.checkCVAndDestroy CVID s).1 := by
  unfold Net.checkCVAndDestroy
  split
  · exact refl s
  · split
    · exact CVs (fun h => h.remove CVID) fun cv hcv x hx => .inl ⟨cv, Table.mem_remove hcv, hx⟩
    · exact refl s

theorem destroyCV (CVID : Option Nat) (s : Server) :
    Quiet A s (serverDoDestroyCV CVID s).2 (serverDoDestroyCV CVID s).1 := by
  unfold serverDoDestroyCV
  split
  · exact refl s
  · rename_i cv hcv
    refine trans (putCV hcv ?_) (checkCVAndDestroy _ _)
    exact fun x hx => .inl ⟨cv, Table.mem_of_get? hcv, hx⟩

theorem destroyMV (MVID : Option Nat) (s : Server) :
    Quiet A s (serverDoDestroyMV MVID s).2 (serverDoDestroyMV MVID s).1 := by
  unfold serverDoDestroyMV
  split
  · exact refl s
  · rename_i m hm
    dsimp only
    split
    · exact MVs fun h => h.remove MVID
    · exact putMV hm

theorem set (MVID : Option Nat) (index : Nat) (value : Int) (c : Sender) (s : Server) :
    Quiet A s (serverDoSet MVID index value c s).2 (serverDoSet MVID index value c s).1 := by
  unfold serverDoSet
  split
  · exact sendAnswer c _ s
  · rename_i m hm
    split
    · exact (putMV hm).answer c _
    · exact sendAnswer c _ s

theorem get (MVID : Option Nat) (index : Nat) (c : Sender) (s : Server) :
    Quiet A s (serverDoGet MVID index c s).2 (serverDoGet MVID index c s).1 := by
  unfold serverDoGet
  split
  · exact sendAnswer c _ s
  · split <;> exact sendAnswer c _ s

theorem crash_if (b : Bool) (s : Server) : Quiet A s (if b then [.crash] else []) s := by
  refine ⟨rfl, rfl, rfl, rfl, fun o ho => ?_, fun _ => .inl, id⟩
  cases b with
  | true =>
    rw [List.mem_singleton.mp ho]
    trivial
  | false => cases ho

theorem createLockNamed (name : String) (s : Server) :
    Quiet A s (createLockNamed name s).2.2 (Net.createLockNamed name s).1 := by
  unfold Net.createLockNamed
  split
  · exact (locks fun h => h.insert_ok _).trans (crash_if _ _)
  · split
    · rename_i l hl
      exact putLock hl
    · exact refl s

theorem createCVNamed (name : String) (s : Server) :
    Quiet A s (createCVNamed name s).2.2 (Net.createCVNamed name s).1 := by
  unfold Net.createCVNamed
  split
  · refine (CVs (fun h => h.insert_ok _) fun cv hcv x hx => ?_).trans (crash_if _ _)
    rcases Table.mem_insert hcv with rfl | hold
    · cases hx
    · exact .inl ⟨cv, hold, hx⟩
  · split
    · rename_i cv hcv
      exact putCV hcv fun x hx => .inl ⟨cv, Table.mem_of_get? hcv, hx⟩
    · exact refl s

theorem createMV (name : String) (size : Nat) (s : Server) :
    Quiet A s (createMV name size s).2.2 (Net.createMV name size s).1 := by
  unfold Net.createMV
  split
  · exact (MVs fun h => h.insert_ok _).trans (crash_if _ _)
  · split
    · rename_i m hm
      split
      · exact refl s
      · exact putMV hm
    · exact refl s

end Quiet

/-- The part of `serverDoCreate` after the record of the run. -/
def createBody (r : Request) (c : Sender) : Act :=
  match r with
  | .createLock name => serverDoCreateLock name c
  | .createCondition name => serverDoCreateCV name c
  | .createMV name size => serverDoCreateMV name size c
  | _ => .skip

theorem serverDoCreate_eq (r : Request) (c : Sender) :
    serverDoCreate r c = .andThen (.emit (.exec none c r)) (createBody r c) := rfl

theorem Quiet.createBody {A : Sender → Prop} (r : Request) (c : Sender) (s : Server) :
    Quiet A s (createBody r c s).2 (Net.createBody r c s).1 := by
  unfold Net.createBody
  split
  · exact (Quiet.createLockNamed _ s).answer c _
  · exact (Quiet.createCVNamed _ s).answer c _
  · exact (Quiet.createMV _ _ s).answer c _
  · exact refl s

theorem serverDoCreate_pending (r : Request) (c : Sender) (s : Server) :
    (serverDoCreate r c s).1.pendingRequests = s.pendingRequests :=
  (Quiet.createBody (A := fun _ => True) r c s).pending

/-! ## Who serves a request -/

/-- The machine an id decodes to. -/
def owner (id : Nat) : Nat := id / 100

theorem checkIfMineAndGetMyIndex_eq (s : Server) (id : Nat) :
    checkIfMineAndGetMyIndex 100 s id = if owner id = s.netAddr then some (id % 100) else none := by
  have h : (id - id % 100) / 100 = id / 100 := by omega
  simp only [checkIfMineAndGetMyIndex, h]
  rfl

theorem myIndex_eq {r : Request} {id : Nat} (h : r.id = some id) (s : Server) :
    r.myIndex s = if owner id = s.netAddr then some (id % 100) else none := by
  cases r <;> cases h <;> exact checkIfMineAndGetMyIndex_eq s _

/-- All requests with an id go through `serveById`. -/
theorem serve_eq {r : Request} {id : Nat} (h : r.id = some id) (c : Sender) :
    serve c r = serveById c r (serverDo r · c) := by
  cases r <;> cases h <;> rfl

/-- A new pending request, sent to the others. -/
def askOthers (c : Sender) (r : Request) : Act := fun s =>
  ({ s with
      pendingRequestCount := s.pendingRequestCount + 1
      pendingRequests := s.pendingRequests ++
        [{ c := c, r := r, sentCount := s.others.length, requestID := s.pendingRequestCount }] },
    s.others.map fun dst => .mail dst (.request s.pendingRequestCount c r))

/-- A pending request was made that nobody is awake to answer. -/
def useNumber : Act := .update fun s =>
  { s with pendingRequestCount := s.pendingRequestCount + 1 }

theorem forward_away {s : Server} (h : s.others ≠ []) (c : Sender) (r : Request) (alone : Act) :
    forward c r alone s = askOthers c r s := by
  simp [forward, askOthers, h]

theorem forward_alone {s : Server} (h : s.others = []) (c : Sender) (r : Request) (alone : Act) :
    forward c r alone s = (useNumber.andThen alone) s := by
  simp [forward, useNumber, h]

section Serve

variable {r : Request} {id : Nat} {s : Server} (hid : r.id = some id) (c : Sender)

include hid

theorem serve_mine (h : owner id = s.netAddr) :
    serve c r s = execute r (some (id % 100)) c s := by
  simp only [serve_eq hid, serveById, myIndex_eq hid, h, if_true]
  rfl

theorem serve_away (h : owner id ≠ s.netAddr) (hothers : s.others ≠ []) :
    serve c r s = askOthers c r s := by
  simp only [serve_eq hid, serveById, myIndex_eq hid, h, if_false]
  exact forward_away hothers _ _ _

theorem serve_alone (h : owner id ≠ s.netAddr) (hothers : s.others = []) :
    serve c r s = (useNumber.andThen (execute r none c)) s := by
  simp only [serve_eq hid, serveById, myIndex_eq hid, h, if_false]
  exact forward_alone hothers _ _ _

end Serve

/-- The creates go through `serveCreate`. -/
theorem serve_create {r : Request} (h : r.id = none) (c : Sender) :
    serve c r = serveCreate r c := by
  cases r <;> cases h <;> rfl

theorem read_id (r : Request) : r.read.id = r.id := by
  cases r <;> rfl

theorem read_eq {r : Request} {id : Nat} (h : r.id = some id) : r.read = r := by
  cases r <;> cases h <;> rfl

/-! ## Finding a pending request -/

/-- What the `findPending...Request` functions compare in the request itself. -/
def Request.sameKey : Request → Request → Bool
  | .createLock name, .createLock n | .createCondition name, .createCondition n
  | .createMV name _, .createMV n _ => decide (n = name)
  | .acquire a, .acquire b | .release a, .release b | .destroyLock a, .destroyLock b
  | .wait a _, .wait b _ | .signal a _, .signal b _ | .broadcast a _, .broadcast b _
  | .destroyCondition a, .destroyCondition b | .destroyMV a, .destroyMV b
  | .set a _ _, .set b _ _ | .get a _, .get b _ => decide (b = a)
  | _, _ => false

theorem findPending_eq (s : Server) (c : Sender) (requestID : Nat) (r : Request) :
    findPending s c requestID r = findPendingWhere s c requestID r.sameKey := by
  cases r <;>
    simp only [findPending, findPendingCreateLockRequest, findPendingAcquireLockRequest,
      findPendingReleaseLockRequest, findPendingDestroyLockRequest, findPendingCreateCVRequest,
      findPendingWaitRequest, findPendingSignalRequest, findPendingBroadcastRequest,
      findPendingDestroyCVRequest, findPendingCreateMVRequest, findPendingDestroyMVRequest,
      findPendingSetMVRequest, findPendingGetMVRequest] <;>
    refine congrArg _ (funext ?_) <;> rintro ⟨⟩ <;> rfl

theorem sameKey_refl (r : Request) : r.sameKey r = true := by
  cases r <;> simp [Request.sameKey]

theorem sameKey_id {r r' : Request} (h : r.sameKey r' = true) : r'.id = r.id := by
  cases r <;> cases r' <;> simp_all [Request.sameKey, Request.id]

theorem Sender.same_refl (c : Sender) : c.same c = true := by
  simp [Sender.same]

/-- The entry that was found. -/
theorem findPending_some {s : Server} {c : Sender} {requestID index : Nat} {r : Request}
    (h : findPending s c requestID r = some index) :
    ∃ p, s.pendingRequests[index]? = some p ∧ p.requestID = requestID ∧ p.c.same c = true ∧
      r.sameKey p.r = true := by
  rw [findPending_eq, findPendingWhere, List.findIdx?_eq_some_iff_getElem] at h
  obtain ⟨hlt, hp, -⟩ := h
  simp only [Bool.and_eq_true, decide_eq_true_eq] at hp
  exact ⟨_, List.getElem?_eq_getElem hlt, hp.1.1, hp.1.2, hp.2⟩

/-- An entry with the number, client and request of a reply is found. -/
theorem findPending_ne_none {s : Server} {p : PendingRequest} (hp : p ∈ s.pendingRequests) :
    findPending s p.c p.requestID p.r ≠ none := by
  rw [findPending_eq, findPendingWhere, ne_eq, List.findIdx?_eq_none_iff]
  intro h
  have := h p hp
  simp [Sender.same_refl, sameKey_refl] at this

/-! ## Requests on behalf of waiting clients -/

/-- Start a request for a client that waits. -/
def startNested (c : Sender) (r : Request) : Act := .andThen (.emit (.nested c r)) (serve c r)

/-- The requests that are started for waiting clients. -/
def Request.nestable : Request → Bool
  | .acquire _ | .release _ => true
  | _ => false

theorem serverDo_quiet {A : Sender → Prop} {r : Request} (h : r.nestable = true)
    (index : Option Nat) (c : Sender) (s : Server) :
    Quiet A s (serverDo r index c s).2 (serverDo r index c s).1 := by
  cases r with
  | acquire lockID => exact .acquire index c s
  | release lockID => exact .release index c s
  | _ => cases h

/-- Code that leaves the condition variables alone. -/
theorem checkLockAndDestroy_CVs (lockID : Option Nat) (s : Server) :
    (checkLockAndDestroy lockID s).1.serverCVs = s.serverCVs := by
  unfold checkLockAndDestroy
  split
  · rfl
  · split <;> rfl

theorem serverDo_nestable_CVs {r : Request} (hr : r.nestable = true) (index : Option Nat)
    (c : Sender) (s : Server) : (serverDo r index c s).1.serverCVs = s.serverCVs := by
  cases r with
  | acquire lockID =>
    simp only [serverDo, serverDoAcquireLock]
    split
    · rfl
    · split
      · rfl
      · split <;> rfl
  | release lockID =>
    simp only [serverDo, serverDoReleaseLock]
    split
    · rfl
    · split
      · split
        · rfl
        · exact checkLockAndDestroy_CVs _ _
      · rfl
  | _ => cases hr

/-- Starting an acquire or a release leaves the condition variables alone. -/
theorem startNested_CVs {r : Request} (hr : r.nestable = true) (c : Sender) (s : Server) :
    (startNested c r s).1.serverCVs = s.serverCVs := by
  obtain ⟨id, hid⟩ : ∃ id, r.id = some id := by
    cases r <;> first | exact ⟨_, rfl⟩ | cases hr
  change (serve c r s).1.serverCVs = s.serverCVs
  by_cases howner : owner id = s.netAddr
  · rw [serve_mine hid c howner]
    exact serverDo_nestable_CVs hr _ _ _
  · by_cases hothers : s.others = []
    · rw [serve_alone hid c howner hothers]
      exact serverDo_nestable_CVs hr _ _ _
    · rw [serve_away hid c howner hothers]
      rfl

theorem wakeUp_CVs (CVID : Option Nat) (cv : ServerCV) (r : Sender) (rest : List Sender)
    (lockID : Nat) (s : Server) :
    (wakeUp CVID cv r rest lockID s).1.serverCVs = s.serverCVs.put CVID
      { cv with q := rest, waitingLock := if rest = [] then none else cv.waitingLock } :=
  startNested_CVs (r := .acquire lockID) rfl r _

section Rules

variable {i : Nat} {A : Sender → Prop} {I : Network → Prop}
  (hwaiting : ∀ (n : Network) (x : Sender), I n → Waiting (n.server i) x → A x)
  (hquiet : ∀ (n : Network) (f : Act),
    Quiet A (n.server i) (f (n.server i)).2 (f (n.server i)).1 → I n → I (n.run i f))
  (hstart : ∀ (n : Network) (c : Sender) (r : Request), r.nestable = true → A c → I n →
    I (n.run i (startNested c r)))

include hquiet hstart

/-- Waking up a client works on the tables and starts its acquire. -/
theorem wakeUp_rule {CVID : Option Nat} (cv : ServerCV) {cv' : ServerCV} {r : Sender}
    {rest : List Sender} (hr : A r) (hrest : ∀ x ∈ rest, A x) (lockID : Nat) {n : Network}
    (hcv : (n.server i).serverCVs.get? CVID = some cv') (hI : I n) :
    I (n.run i (wakeUp CVID cv r rest lockID)) := by
  have heq : n.run i (wakeUp CVID cv r rest lockID) = n.run i (Act.andThen
      (.update fun s => s.putCV CVID
        { cv with q := rest, waitingLock := if rest = [] then none else cv.waitingLock })
      (.andThen (.emit (.leave (.CV CVID) r)) (startNested r (.acquire lockID)))) :=
    n.run_congr i rfl
  rw [heq, Network.run_andThen, Network.run_andThen]
  exact hstart _ _ _ rfl hr
    (hquiet _ _ (.leave _ _ _) (hquiet _ _ (.putCV hcv fun x hx => .inr (hrest x hx)) hI))

theorem broadcastLoop_rule {CVID : Option Nat} (cv : ServerCV) {cv' : ServerCV} (lockID : Nat)
    {q : List Sender} (hq : ∀ x ∈ q, A x) {n : Network}
    (hcv : (n.server i).serverCVs.get? CVID = some cv') (hI : I n) :
    I (n.run i (broadcastLoop CVID cv lockID q)) := by
  induction q generalizing n cv' with
  | nil =>
    rw [broadcastLoop, Network.run_skip]
    exact hI
  | cons r rest ih =>
    rw [broadcastLoop, Network.run_andThen]
    have hrest : ∀ x ∈ rest, A x := fun x hx => hq x (List.mem_cons_of_mem r hx)
    have hcv' : ((n.run i (wakeUp CVID cv r rest lockID)).server i).serverCVs.get? CVID = some
        { cv with q := rest, waitingLock := if rest = [] then none else cv.waitingLock } := by
      rw [Network.run_server_self, wakeUp_CVs]
      exact Table.get?_put_self hcv
    exact ih hrest hcv' (wakeUp_rule hquiet hstart _ (hq r List.mem_cons_self) hrest _ hcv hI)

include hwaiting

/-- **The rule for the `serverDo...` functions**: what quiet code keeps and what starting an
acquire or a release keeps, all of them keep. -/
theorem serverDo_rule (r : Request) (index : Option Nat) (c : Sender)
    (hc : ∀ CVID lockID, r = .wait CVID lockID → A c) {n : Network} (hI : I n) :
    I (n.run i (serverDo r index c)) := by
  have hanswer : ∀ (n : Network) (a : Answer), I n → I (n.run i (sendAnswer c a)) :=
    fun n a hI => hquiet n _ (.sendAnswer c a _) hI
  have hA : ∀ cv, (n.server i).serverCVs.get? index = some cv → ∀ x ∈ cv.q, A x :=
    fun cv hcv x hx => hwaiting n x hI ⟨cv, Table.mem_of_get? hcv, hx⟩
  cases r with
  | createLock name => exact hquiet n _ (.refl _) hI
  | acquire lockID => exact hquiet n _ (.acquire index c _) hI
  | release lockID => exact hquiet n _ (.release index c _) hI
  | destroyLock lockID => exact hquiet n _ (.destroyLock index _) hI
  | createCondition name => exact hquiet n _ (.refl _) hI
  | wait CVID lockID =>
    cases hcv : (n.server i).serverCVs.get? index with
    | none =>
      rw [n.run_congr i (g := sendAnswer c { status := false })]
      · exact hanswer n _ hI
      · simp [serverDo, serverDoWait, hcv]
    | some cv =>
      by_cases hlock : (if cv.waitingLock = none then some lockID else cv.waitingLock) = some lockID
      · rw [n.run_congr i (g := .andThen (.update fun s => s.putCV index
            { cv with waitingLock := some lockID, q := cv.q ++ [c] })
            (.andThen (.emit (.enter (.CV index) c)) (startNested c (.release lockID)))),
          Network.run_andThen, Network.run_andThen]
        · refine hstart _ _ _ rfl (hc _ _ rfl)
            (hquiet _ _ (.enter _ _ _) (hquiet _ _ (.putCV hcv fun x hx => .inr ?_) hI))
          rcases List.mem_append.mp hx with hx | hx
          · exact hA cv hcv x hx
          · rw [List.mem_singleton.mp hx]
            exact hc _ _ rfl
        · simp only [serverDo, serverDoWait, hcv, hlock, ne_eq, not_true_eq_false, if_false]
          rfl
      · rw [n.run_congr i (g := sendAnswer c { status := false })]
        · exact hanswer n _ hI
        · simp [serverDo, serverDoWait, hcv, hlock]
  | signal CVID lockID =>
    cases hcv : (n.server i).serverCVs.get? index with
    | none =>
      rw [n.run_congr i (g := sendAnswer c { status := false })]
      · exact hanswer n _ hI
      · simp [serverDo, serverDoSignal, hcv]
    | some cv =>
      cases hlock : cv.waitingLock with
      | none =>
        rw [n.run_congr i (g := sendAnswer c { status := true })]
        · exact hanswer n _ hI
        · simp [serverDo, serverDoSignal, hcv, hlock]
      | some waitingLock =>
        by_cases heq : waitingLock = lockID
        · cases hq : cv.q with
          | nil =>
            rw [n.run_congr i (g := fun s => (s, [.crash]))]
            · exact hquiet _ _ (.crash_if true _) hI
            · simp [serverDo, serverDoSignal, hcv, hlock, heq, hq]
          | cons r rest =>
            rw [n.run_congr i (g := .andThen (wakeUp index cv r rest lockID)
              (sendAnswer c { status := true })), Network.run_andThen]
            · have hq' : ∀ x ∈ r :: rest, A x := hq ▸ hA cv hcv
              exact hanswer _ _ (wakeUp_rule hquiet hstart _ (hq' r List.mem_cons_self)
                (fun x hx => hq' x (List.mem_cons_of_mem r hx)) _ hcv hI)
            · simp [serverDo, serverDoSignal, hcv, hlock, heq, hq]
        · rw [n.run_congr i (g := sendAnswer c { status := false })]
          · exact hanswer n _ hI
          · simp [serverDo, serverDoSignal, hcv, hlock, heq]
  | broadcast CVID lockID =>
    cases hcv : (n.server i).serverCVs.get? index with
    | none =>
      rw [n.run_congr i (g := sendAnswer c { status := false })]
      · exact hanswer n _ hI
      · simp [serverDo, serverDoBroadcast, hcv]
    | some cv =>
      rw [n.run_congr i (g := .andThen (broadcastLoop index cv lockID cv.q)
        (sendAnswer c { status := true })), Network.run_andThen]
      · exact hanswer _ _ (broadcastLoop_rule hquiet hstart _ _ (hA cv hcv) hcv hI)
      · simp only [serverDo, serverDoBroadcast, hcv]
  | destroyCondition CVID => exact hquiet n _ (.destroyCV index _) hI
  | createMV name size => exact hquiet n _ (.refl _) hI
  | destroyMV MVID => exact hquiet n _ (.destroyMV index _) hI
  | set MVID idx value => exact hquiet n _ (.set index idx value c _) hI
  | get MVID idx => exact hquiet n _ (.get index idx c _) hI

end Rules

/-! ## Taking up a request -/

/-- `I owed` is an invariant in which the requests in `owed` have been taken up but not yet
run or sent on, and in which only the clients `A` wait. The pieces of code of the server `i`
that take up requests carry it. -/
structure Carries (i : Nat) (A : Sender → Prop)
    (I : List (Sender × Request) → Network → Prop) : Prop where
  waiting : ∀ owed (n : Network) (x : Sender), I owed n → Waiting (n.server i) x → A x
  quiet : ∀ owed (n : Network) (f : Act),
    Quiet A (n.server i) (f (n.server i)).2 (f (n.server i)).1 → I owed n → I owed (n.run i f)
  nested : ∀ owed (n : Network) (c : Sender) (r : Request), r.nestable = true → A c → I owed n →
    I ((c, r) :: owed) (n.run i (.emit (.nested c r)))
  mine : ∀ owed (n : Network) (c : Sender) (r : Request) (id : Nat), r.id = some id →
    owner id = (n.server i).netAddr → I ((c, r) :: owed) n →
    I owed (n.run i (.emit (.exec (some (id % 100)) c r)))
  alone : ∀ owed (n : Network) (c : Sender) (r : Request) (id : Nat), r.id = some id →
    owner id ≠ (n.server i).netAddr → (n.server i).others = [] → I ((c, r) :: owed) n →
    I owed ((n.run i useNumber).run i (.emit (.exec none c r)))
  away : ∀ owed (n : Network) (c : Sender) (r : Request) (id : Nat), r.id = some id →
    owner id ≠ (n.server i).netAddr → (n.server i).others ≠ [] → I ((c, r) :: owed) n →
    (∀ CVID lockID, r = .wait CVID lockID → A c) → I owed (n.run i (askOthers c r))

namespace Carries

variable {i : Nat} {A : Sender → Prop} {I : List (Sender × Request) → Network → Prop}
  (hcarries : Carries i A I) (owed : List (Sender × Request))

include hcarries

theorem serve_of {c : Sender} {r : Request} {id : Nat} (hid : r.id = some id)
    (hc : ∀ CVID lockID, r = .wait CVID lockID → A c)
    (hdo : ∀ (n : Network) (index : Option Nat), I owed n → I owed (n.run i (serverDo r index c)))
    {n : Network} (hI : I ((c, r) :: owed) n) : I owed (n.run i (serve c r)) := by
  by_cases howner : owner id = (n.server i).netAddr
  · rw [n.run_congr i (serve_mine hid c howner), execute, Network.run_andThen]
    exact hdo _ _ (hcarries.mine owed n c r id hid howner hI)
  · by_cases hothers : (n.server i).others = []
    · rw [n.run_congr i (serve_alone hid c howner hothers), execute, Network.run_andThen,
        Network.run_andThen]
      exact hdo _ _ (hcarries.alone owed n c r id hid howner hothers hI)
    · rw [n.run_congr i (serve_away hid c howner hothers)]
      exact hcarries.away owed n c r id hid howner hothers hI hc

/-- Running any request with an id, with all it starts. -/
theorem serverDo (r : Request) (index : Option Nat) (c : Sender)
    (hc : ∀ CVID lockID, r = .wait CVID lockID → A c) {n : Network} (hI : I owed n) :
    I owed (n.run i (serverDo r index c)) := by
  refine serverDo_rule (hcarries.waiting owed) (hcarries.quiet owed) (fun n c r hr hc hI => ?_)
    r index c hc hI
  rw [startNested, Network.run_andThen]
  obtain ⟨id, hid⟩ : ∃ id, r.id = some id := by
    cases r <;> first | exact ⟨_, rfl⟩ | cases hr
  exact hcarries.serve_of owed hid (fun _ _ _ => hc)
    (fun n index hI => hcarries.quiet owed n _ (serverDo_quiet hr index c _) hI)
    (hcarries.nested owed n c r hr hc hI)

/-- **The rule for taking up a request with an id.** -/
theorem serve {c : Sender} {r : Request} {id : Nat} (hid : r.id = some id)
    (hc : ∀ CVID lockID, r = .wait CVID lockID → A c) {n : Network}
    (hI : I ((c, r) :: owed) n) : I owed (n.run i (serve c r)) :=
  hcarries.serve_of owed hid hc (fun _ index hI => hcarries.serverDo owed r index c hc hI) hI

end Carries

/-- Taking up requests only adds to the pending ones. -/
theorem pending_carries (i : Nat) (old : List PendingRequest) :
    Carries i (fun _ => True) fun _ n => old <+: (n.server i).pendingRequests where
  waiting _ _ _ _ _ := trivial
  quiet _ n f hf h := by
    rw [Network.run_server_self, hf.pending]
    exact h
  nested _ n c r _ _ h := by
    rw [Network.run_server_self]
    exact h
  mine _ n c r _ _ _ h := by
    rw [Network.run_server_self]
    exact h
  alone _ n c r _ _ _ _ h := by
    rw [Network.run_server_self, Act.emit_apply, Network.run_server_self]
    exact h
  away _ n c r _ _ _ _ h _ := by
    rw [Network.run_server_self]
    exact h.trans (List.prefix_append _ _)

end Nachos.Net

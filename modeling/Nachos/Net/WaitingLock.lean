import Nachos.Net.Conditions
import Nachos.Net.Handed
import Nachos.Net.Trace

/-!
# The lock a waiter gets back

A server does not store the lock of a Wait with the waiter: the condition variable has one
`waitingLock` for its whole queue. In every run all queued clients did name that lock in
their Wait (`Linked`): `serverDoWait` turns away a client that names another one, and the
field is reset only together with the queue. So a Signal, which compares its lock with
`waitingLock`, acquires the right lock for the client it wakes up. A Broadcast compares
nothing, and acquires the right lock exactly when it names `waitingLock` itself.
-/

namespace Nachos.Net

/-! ## Who is woken up, and with which lock -/

/-- The acquires that are started for waiting clients. -/
def acquiresOf (out : List Out) : List (Sender × Nat) :=
  out.filterMap fun
    | .nested x (.acquire lockID) => some (x, lockID)
    | _ => none

/-- The clients that a request wakes up, and the lock it acquires for each. -/
def wakes (s : Server) (index : Option Nat) : Request → List (Sender × Nat)
  | .signal _ lockID => (s.serverCVs.get? index).elim [] fun cv =>
    if cv.waitingLock = some lockID then (cv.q.take 1).map (·, lockID) else []
  | .broadcast _ lockID => (s.serverCVs.get? index).elim [] fun cv => cv.q.map (·, lockID)
  | _ => []

@[simp] theorem acquiresOf_append (o₁ o₂ : List Out) :
    acquiresOf (o₁ ++ o₂) = acquiresOf o₁ ++ acquiresOf o₂ :=
  List.filterMap_append

theorem acquiresOf_eq_nil {out : List Out} (h : ∀ x L, Out.nested x (.acquire L) ∉ out) :
    acquiresOf out = [] := by
  rw [acquiresOf, List.filterMap_eq_nil_iff]
  intro o ho
  cases o with
  | nested x r =>
    cases r with
    | acquire L => exact absurd ho (h x L)
    | _ => rfl
  | _ => rfl

theorem mem_acquiresOf {out : List Out} {x : Sender} {L : Nat} :
    (x, L) ∈ acquiresOf out ↔ Out.nested x (.acquire L) ∈ out := by
  constructor
  · intro h
    obtain ⟨o, ho, heq⟩ := List.mem_filterMap.mp h
    split at heq
    · cases heq
      exact ho
    · cases heq
  · intro h
    exact List.mem_filterMap.mpr ⟨_, h, rfl⟩

theorem acquiresOf_quiet {A : Sender → Prop} {s s' : Server} {out : List Out}
    (h : Quiet A s out s') : acquiresOf out = [] :=
  acquiresOf_eq_nil fun _ _ ho => h.plain _ ho

theorem acquiresOf_forwarded {out : List Out} (h : ∀ o ∈ out, o.forwarded) :
    acquiresOf out = [] :=
  acquiresOf_eq_nil fun _ _ ho => h _ ho

/-- Taking up an Acquire or Release for a waiting client starts nothing more. -/
theorem acquiresOf_serve {r : Request} (hr : r.nestable = true) (c : Sender) (s : Server) :
    acquiresOf (serve c r s).2 = [] := by
  obtain ⟨id, hid⟩ : ∃ id, r.id = some id := by
    cases r <;> first | exact ⟨_, rfl⟩ | cases hr
  have hrun : ∀ index s, acquiresOf (execute r index c s).2 = [] := by
    intro index s
    show acquiresOf (serverDo r index c s).2 = []
    exact acquiresOf_quiet (serverDo_quiet (A := fun _ => True) hr index c s)
  by_cases howner : owner id = s.netAddr
  · rw [serve_mine hid c howner]
    exact hrun _ _
  · by_cases hothers : s.others = []
    · rw [serve_alone hid c howner hothers]
      exact hrun _ _
    · rw [serve_away hid c howner hothers]
      refine acquiresOf_forwarded fun o ho => ?_
      obtain ⟨d, -, rfl⟩ := List.mem_map.mp ho
      trivial

theorem acquiresOf_wakeUp (CVID : Option Nat) (cv : ServerCV) (x : Sender) (rest : List Sender)
    (lockID : Nat) (s : Server) : acquiresOf (wakeUp CVID cv x rest lockID s).2 = [(x, lockID)] := by
  show (x, lockID) :: acquiresOf (serve x (.acquire lockID) _).2 = _
  rw [acquiresOf_serve rfl]

theorem acquiresOf_broadcastLoop (CVID : Option Nat) (cv : ServerCV) (lockID : Nat)
    (q : List Sender) (s : Server) :
    acquiresOf (broadcastLoop CVID cv lockID q s).2 = q.map (·, lockID) := by
  induction q generalizing s with
  | nil => rfl
  | cons x rest ih =>
    rw [broadcastLoop, Act.andThen_apply, acquiresOf_append, acquiresOf_wakeUp, ih]
    rfl

/-- **A request wakes up the clients of `wakes`.** -/
theorem acquiresOf_serverDo (r : Request) (index : Option Nat) (c : Sender) (s : Server) :
    acquiresOf (serverDo r index c s).2 = wakes s index r := by
  cases r with
  | createLock | createCondition | createMV => rfl
  | acquire lockID => exact acquiresOf_quiet (Quiet.acquire (A := fun _ => True) index c s)
  | release lockID => exact acquiresOf_quiet (Quiet.release (A := fun _ => True) index c s)
  | destroyLock lockID => exact acquiresOf_quiet (Quiet.destroyLock (A := fun _ => True) index s)
  | destroyCondition CVID => exact acquiresOf_quiet (Quiet.destroyCV (A := fun _ => True) index s)
  | destroyMV MVID => exact acquiresOf_quiet (Quiet.destroyMV (A := fun _ => True) index s)
  | set MVID i value => exact acquiresOf_quiet (Quiet.set (A := fun _ => True) index i value c s)
  | get MVID i => exact acquiresOf_quiet (Quiet.get (A := fun _ => True) index i c s)
  | wait CVID lockID =>
    cases hcv : s.serverCVs.get? index with
    | none => simp [serverDo, serverDoWait, wakes, hcv, sendAnswer, acquiresOf]
    | some cv =>
      by_cases hlock : (if cv.waitingLock = none then some lockID else cv.waitingLock) = some lockID
      · simp only [serverDo, serverDoWait, hcv, hlock, ne_eq, not_true_eq_false, if_false]
        exact acquiresOf_serve (r := .release lockID) rfl c _
      · simp [serverDo, serverDoWait, wakes, hcv, hlock, sendAnswer, acquiresOf]
  | signal CVID lockID =>
    cases hcv : s.serverCVs.get? index with
    | none => simp [serverDo, serverDoSignal, wakes, hcv, sendAnswer, acquiresOf]
    | some cv =>
      cases hlock : cv.waitingLock with
      | none => simp [serverDo, serverDoSignal, wakes, hcv, hlock, sendAnswer, acquiresOf]
      | some waitingLock =>
        by_cases heq : waitingLock = lockID
        · cases hq : cv.q with
          | nil => simp [serverDo, serverDoSignal, wakes, hcv, hlock, heq, hq, acquiresOf]
          | cons x rest =>
            have hout : (serverDo (.signal CVID lockID) index c s).2 =
                (wakeUp index cv x rest lockID s).2 ++ (sendAnswer c { status := true } s).2 := by
              simp [serverDo, serverDoSignal, hcv, hlock, heq, hq, sendAnswer]
            rw [hout, acquiresOf_append, acquiresOf_wakeUp]
            simp [wakes, hcv, hlock, heq, hq, sendAnswer, acquiresOf]
        · simp [serverDo, serverDoSignal, wakes, hcv, hlock, heq, sendAnswer, acquiresOf]
  | broadcast CVID lockID =>
    cases hcv : s.serverCVs.get? index with
    | none => simp [serverDo, serverDoBroadcast, wakes, hcv, sendAnswer, acquiresOf]
    | some cv =>
      have hout : (serverDo (.broadcast CVID lockID) index c s).2 =
          (broadcastLoop index cv lockID cv.q s).2 ++ (sendAnswer c { status := true } s).2 := by
        simp [serverDo, serverDoBroadcast, hcv, sendAnswer]
      rw [hout, acquiresOf_append, acquiresOf_broadcastLoop]
      simp [wakes, hcv, sendAnswer, acquiresOf]

/-! ## The summary in `waitingLock` -/

/-- Every client in the queue of a condition variable sent a Wait with its `waitingLock`. -/
def Linked (sent : List (Sender × Request)) (s : Server) : Prop :=
  ∀ cv, some cv ∈ s.serverCVs.entries → ∀ x ∈ cv.q, ∃ CVID lockID,
    cv.waitingLock = some lockID ∧ (x, .wait CVID lockID) ∈ sent

theorem linked_rule (sent : List (Sender × Request)) :
    CVRule (fun cv => ∀ x ∈ cv.q, ∃ CVID lockID,
        cv.waitingLock = some lockID ∧ (x, Request.wait CVID lockID) ∈ sent)
      fun c lockID => ∃ CVID, (c, Request.wait CVID lockID) ∈ sent where
  fresh _ := nofun
  count _ _ h := h
  pop cv x rest h hq y hy := by
    obtain ⟨CVID, lockID, hlock, hsent⟩ := h y (hq ▸ List.mem_cons_of_mem x hy)
    refine ⟨CVID, lockID, ?_, hsent⟩
    have hne : rest ≠ [] := List.ne_nil_of_mem hy
    show (if rest = [] then none else cv.waitingLock) = some lockID
    rw [if_neg hne]
    exact hlock
  push cv c lockID h hc hlock x hx := by
    rcases List.mem_append.mp hx with hx | hx
    · obtain ⟨CVID, L, hL, hsent⟩ := h x hx
      -- a `waitingLock` that is set is the lock of this Wait
      have heq : lockID = L := by simpa [hL, eq_comm] using hlock
      exact ⟨CVID, L, heq ▸ rfl, hsent⟩
    · obtain ⟨CVID, hsent⟩ := hc
      rw [List.mem_singleton.mp hx]
      exact ⟨CVID, lockID, rfl, hsent⟩

namespace Linked

variable {sent : List (Sender × Request)} {s : Server} {index : Option Nat}

theorem of_CVs (h : Linked sent s) {s' : Server} (heq : s'.serverCVs = s.serverCVs) :
    Linked sent s' :=
  AllCVs.of_CVs h heq

theorem get (h : Linked sent s) {cv : ServerCV} (hcv : s.serverCVs.get? index = some cv) :
    ∀ x ∈ cv.q, ∃ CVID lockID, cv.waitingLock = some lockID ∧ (x, .wait CVID lockID) ∈ sent :=
  h cv (Table.mem_of_get? hcv)

/-- **A request keeps the summary**, if it is a Wait that its client sent or no Wait. -/
theorem serverDo (h : Linked sent s) (r : Request) (index : Option Nat) (c : Sender)
    (hc : ∀ CVID lockID, r = .wait CVID lockID → (c, r) ∈ sent) :
    Linked sent (serverDo r index c s).1 := by
  apply AllCVs.serverDo (linked_rule sent) h r index c
  rintro CVID lockID rfl
  exact ⟨CVID, hc CVID lockID rfl⟩

theorem createBody (h : Linked sent s) (r : Request) (c : Sender) :
    Linked sent (createBody r c s).1 :=
  AllCVs.createBody (linked_rule sent) h r c

end Linked

/-- Handling a mail that runs no request with an id keeps the summary and wakes up nobody. -/
theorem linked_idle (sent : List (Sender × Request)) (src : Nat) {body : Body} {s : Server}
    (h : body.runs s = none) : acquiresOf (receive src body s).2 = [] ∧
      (Linked sent s → Linked sent (receive src body s).1) := by
  refine receive_idle (R := fun s out s' => acquiresOf out = [] ∧
    (Linked sent s → Linked sent s')) ?_ ?_ ?_ src h
  · rintro s o s₁ o₁ s₂ ⟨ho, hs⟩ ⟨ho₁, hs₁⟩
    rw [acquiresOf_append, ho, ho₁]
    exact ⟨rfl, fun hlinked => hs₁ (hs hlinked)⟩
  · exact fun s out s' hsame hout =>
      ⟨acquiresOf_forwarded hout, fun hlinked => hlinked.of_CVs hsame.CVs⟩
  · intro r c _ s
    refine ⟨?_, fun hlinked => hlinked.createBody r c⟩
    show acquiresOf (createBody r c s).2 = []
    exact acquiresOf_quiet (Quiet.createBody (A := fun _ => True) r c s)

/-- Handling a mail that runs a request wakes up the clients of `wakes`, and keeps the
summary like the request itself. -/
theorem linked_runs (sent : List (Sender × Request)) (src : Nat) {body : Body} {s : Server}
    {index : Option Nat} {c : Sender} {r : Request} (h : body.runs s = some (index, c, r)) :
    acquiresOf (receive src body s).2 = wakes s index r ∧
      .exec index c r ∈ (receive src body s).2 ∧
      ((∀ CVID lockID, r = .wait CVID lockID → (c, r) ∈ sent) → Linked sent s →
        Linked sent (receive src body s).1) := by
  obtain ⟨-, s₁, pre, hbefore, hpre, hout, hafter⟩ := receive_runs src h
  have hwakes : wakes s₁ index r = wakes s index r := by
    unfold wakes
    rw [hbefore.CVs]
  refine ⟨?_, ?_, fun hc hlinked => ?_⟩
  · rw [hout, acquiresOf_append, acquiresOf_forwarded hpre, ← hwakes, ← acquiresOf_serverDo r index c]
    rfl
  · rw [hout]
    exact List.mem_append_right _ List.mem_cons_self
  · have hdone : Linked sent (execute r index c s₁).1 :=
      (hlinked.of_CVs hbefore.CVs).serverDo r index c hc
    exact hdone.of_CVs hafter.CVs

/-! ## Over a run -/

/-- A Wait is one that its client sent. -/
def SentWait (sent : List (Sender × Request)) (c : Sender) (r : Request) : Prop :=
  ∀ CVID lockID, r = .wait CVID lockID → (c, r) ∈ sent

/-- What every run keeps. -/
structure Lent (n : Network) : Prop where
  numbered : Numbered n
  traced : Traced n
  handed : Handed (SentWait n.sent) (Waiter n.sent) n
  linked : ∀ j, Linked n.sent (n.server j)

theorem lent_init (up : Nat → Bool) : Lent (.init up) where
  numbered := numbered_init up
  traced := traced_init up
  handed := handed_init _ _ up
  linked _ cv hcv := by cases hcv

theorem sent_grows {n n' : Network} {op : Op} (h : NetStep n op n') : n.sent <+: n'.sent := by
  cases netStep_spec h with
  | send => exact List.prefix_append _ _
  | deliver | take => exact List.prefix_refl _

theorem lent_step {n n' : Network} {op : Op} (h : Lent n) (hstep : NetStep n op n') :
    Lent n' := by
  have hnumbered := numbered_step h.numbered hstep
  have hsub : ∀ e ∈ n.sent, e ∈ n'.sent := fun e he => (sent_grows hstep).subset he
  have hgrown : Handed (SentWait n'.sent) (Waiter n'.sent) n :=
    h.handed.mono (fun c r hr CVID lockID heq => hsub _ (hr CVID lockID heq))
      fun x hx => hx.mono hsub
  have hhanded : Handed (SentWait n'.sent) (Waiter n'.sent) n' := by
    refine hgrown.step (fun c r hr _ CVID lockID heq => ?_)
      (fun c CVID lockID hr => ⟨CVID, lockID, hr CVID lockID rfl⟩) h.numbered ?_ hstep
    · rw [heq] at hr
      cases hr
    · rintro machine mailbox dst r rfl CVID lockID hread
      cases netStep_spec hstep with
      | send =>
        have hr : r.read = r := by
          cases r <;> first | rfl | cases hread
        rw [hr]
        exact List.mem_append_right _ (List.mem_singleton.mpr rfl)
  refine ⟨hnumbered, traced_step h.traced hstep, hhanded, fun j => ?_⟩
  cases netStep_spec hstep with
  | send =>
    intro cv hcv x hx
    obtain ⟨v, L, hL, hsent⟩ := h.linked j cv hcv x hx
    exact ⟨v, L, hL, hsub _ hsent⟩
  | take => exact h.linked j
  | @deliver l₁ m l₂ hmails hdst =>
    by_cases hj : j = m.dst
    · subst hj
      rw [Network.run_server_self, Network.withMails_server]
      cases hruns : m.body.runs (n.server m.dst) with
      | none => exact (linked_idle _ m.src hruns).2 (h.linked m.dst)
      | some e =>
        obtain ⟨-, hexec, hlinked⟩ := linked_runs n.sent m.src hruns
        -- the record of the run shows that the Wait was sent
        exact hlinked (hhanded.log (m.dst, .exec e.1 e.2.1 e.2.2)
          (List.mem_append_right _ (List.mem_map.mpr ⟨_, hexec, rfl⟩))) (h.linked m.dst)
    · rw [Network.run_server_of_ne _ _ _ hj]
      exact h.linked j

/-- Every lock that was acquired for a client that was woken up is the lock of its Wait. -/
def GivenBack (n : Network) : Prop :=
  ∀ j x lockID, (j, Out.nested x (.acquire lockID)) ∈ n.log →
    ∃ CVID, (x, Request.wait CVID lockID) ∈ n.sent

/-- If the mail makes the server run a Broadcast that finds clients in the queue, the
Broadcast names the `waitingLock`. -/
def Body.NamesWaitingLock (s : Server) (body : Body) : Prop :=
  match body.runs s with
  | some (index, _, .broadcast _ lockID) =>
    ∀ cv ∈ s.serverCVs.get? index, cv.q ≠ [] → cv.waitingLock = some lockID
  | _ => True

instance (s : Server) (body : Body) : Decidable (body.NamesWaitingLock s) := by
  unfold Body.NamesWaitingLock
  split <;> infer_instance

/-- The condition on a step. -/
def NamesWaitingLock (n : Network) : Op → Prop
  | .deliver i => ∀ m ∈ n.mails[i]?, m.body.NamesWaitingLock (n.server m.dst)
  | .send _ _ _ _ | .take _ => True

instance (n : Network) : (op : Op) → Decidable (NamesWaitingLock n op)
  | .deliver _ => inferInstanceAs (Decidable (∀ m ∈ _, _))
  | .send _ _ _ _ | .take _ => .isTrue trivial

/-- **One request** wakes up clients with the locks of their Waits, unless it is a Broadcast
that names another lock. -/
theorem wakes_given_back_iff {n : Network} (h : Lent n) (j : Nat) {index : Option Nat}
    {r : Request} :
    (∀ e ∈ wakes (n.server j) index r, ∃ CVID, (e.1, Request.wait CVID e.2) ∈ n.sent) ↔
      ∀ CVID lockID, r = .broadcast CVID lockID → ∀ cv ∈ (n.server j).serverCVs.get? index,
        cv.q ≠ [] → cv.waitingLock = some lockID := by
  cases r with
  | signal CVID lockID =>
    refine ⟨fun _ _ _ heq => (by cases heq), fun _ e he => ?_⟩
    cases hcv : (n.server j).serverCVs.get? index with
    | none => simp [wakes, hcv] at he
    | some cv =>
      by_cases hlock : cv.waitingLock = some lockID
      · simp only [wakes, hcv, Option.elim_some, hlock, if_true] at he
        obtain ⟨x, hx, rfl⟩ := List.mem_map.mp he
        obtain ⟨v, L, hL, hsent⟩ := (h.linked j).get hcv x (List.mem_of_mem_take hx)
        cases hlock.symm.trans hL
        exact ⟨v, hsent⟩
      · simp [wakes, hcv, hlock] at he
  | broadcast CVID lockID =>
    cases hcv : (n.server j).serverCVs.get? index with
    | none => simp [wakes, hcv]
    | some cv =>
      have hwakes : wakes (n.server j) index (.broadcast CVID lockID) = cv.q.map (·, lockID) := by
        simp [wakes, hcv]
      rw [hwakes]
      constructor
      · rintro hall _ _ ⟨⟩ cv' ⟨⟩ hq
        obtain ⟨x, hx⟩ := List.exists_mem_of_ne_nil cv.q hq
        obtain ⟨v, L, hL, hsent⟩ := (h.linked j).get hcv x hx
        obtain ⟨v', hsent'⟩ := hall (x, lockID) (List.mem_map.mpr ⟨x, hx, rfl⟩)
        -- the client sent one Wait only
        cases h.traced.sent_unique hsent hsent'
        exact hL
      · intro hnames e he
        obtain ⟨x, hx, rfl⟩ := List.mem_map.mp he
        obtain ⟨v, L, hL, hsent⟩ := (h.linked j).get hcv x hx
        have hlock := hnames CVID lockID rfl cv rfl (List.ne_nil_of_mem hx)
        cases hlock.symm.trans hL
        exact ⟨v, hsent⟩
  | _ => simp [wakes]

/-- **One step** gives waiters their locks back exactly when it meets the condition. -/
theorem given_back_step {n n' : Network} {op : Op} (h : Lent n) (hstep : NetStep n op n') :
    GivenBack n' ↔ GivenBack n ∧ NamesWaitingLock n op := by
  cases netStep_spec hstep with
  | take => exact ⟨fun hback => ⟨hback, trivial⟩, And.left⟩
  | @send machine mailbox dst r hmachine hdst =>
    refine ⟨fun hback => ⟨fun j x L ho => ?_, trivial⟩, fun hback j x L ho => ?_⟩
    · obtain ⟨v, hsent⟩ := hback j x L ho
      rcases List.mem_append.mp hsent with hsent | hsent
      · exact ⟨v, hsent⟩
      · -- the new request is not the one of a client that waits
        obtain ⟨-, CVID, lockID, hold⟩ := h.traced.nested j x _ ho
        cases List.mem_singleton.mp hsent
        exact absurd (h.traced.tag_lt _ hold) (Nat.lt_irrefl _)
    · obtain ⟨v, hsent⟩ := hback.1 j x L ho
      exact ⟨v, List.mem_append_left _ hsent⟩
  | @deliver l₁ m l₂ hmails hdst =>
    have hget : n.mails[l₁.length]? = some m := by
      rw [hmails, List.getElem?_append_right (Nat.le_refl _), Nat.sub_self,
        List.getElem?_cons_zero]
    have hcond : NamesWaitingLock n (.deliver l₁.length) ↔
        m.body.NamesWaitingLock (n.server m.dst) := by
      simp [NamesWaitingLock, hget]
    have hnew : (∀ e ∈ acquiresOf (receive m.src m.body (n.server m.dst)).2,
        ∃ CVID, (e.1, Request.wait CVID e.2) ∈ n.sent) ↔
          m.body.NamesWaitingLock (n.server m.dst) := by
      cases hruns : m.body.runs (n.server m.dst) with
      | none => simp [linked_idle n.sent m.src hruns, Body.NamesWaitingLock, hruns]
      | some e =>
        obtain ⟨index, c, r⟩ := e
        rw [(linked_runs n.sent m.src hruns).1, wakes_given_back_iff h]
        simp only [Body.NamesWaitingLock, hruns]
        cases r <;> simp
    rw [hcond, ← hnew]
    constructor
    · refine fun hback => ⟨fun j x L ho => hback j x L (List.mem_append_left _ ho), ?_⟩
      rintro ⟨x, L⟩ he
      exact hback m.dst x L (List.mem_append_right _
        (List.mem_map.mpr ⟨_, mem_acquiresOf.mp he, rfl⟩))
    · rintro ⟨hold, hnew⟩ j x L ho
      rcases List.mem_append.mp ho with ho | ho
      · exact hold j x L ho
      · obtain ⟨o, ho, heq⟩ := List.mem_map.mp ho
        cases heq
        exact hnew (x, L) (mem_acquiresOf.mpr ho)

/-- **A waiter gets back the lock it gave up** in exactly the runs in which every Broadcast
that finds clients in the queue names the `waitingLock`. -/
theorem waiter_lock_given_back_iff {up : Nat → Bool} {n : Network} {l : List Op}
    (h : Lib.Path NetStep (.init up) l n) :
    GivenBack n ↔ Lib.Path (Lib.Restrict NetStep NamesWaitingLock) (.init up) l n := by
  refine Lib.Path.restrict_iff (I := Lent) (P := GivenBack) ?_ ?_ h (lent_init up) ?_
  · exact fun _ _ _ hI hstep => lent_step hI hstep
  · exact fun _ _ _ hI hstep => given_back_step hI hstep
  · exact fun _ _ _ ho => by cases ho

/-- A client creates two locks and a condition variable at server 0, acquires lock 0 and
waits with it; another one broadcasts with the given lock. -/
def broadcastOps (lockID : Nat) : List Op :=
  ([(0, .createLock "a"), (0, .createLock "b"), (0, .createCondition "v"), (0, .acquire 0),
    (0, .wait 0 0), (1, .broadcast 0 lockID)] : List (Nat × Request)).flatMap fun e =>
      [.send 5 e.1 0 e.2, .deliver 0] ++ if e.1 = 0 ∧ e.2 ≠ .wait 0 0 then [.take 0] else []

theorem waiter_lock_given_back : ∃ n,
    Lib.Reachable NetStep (.init fun i => decide (i = 0)) n ∧
      (0, Out.nested ⟨5, 0, 4⟩ (.acquire 0)) ∈ n.log ∧ GivenBack n := by
  have hrun : (Lib.execute (Lib.guarded Network.next NamesWaitingLock)
      (.init fun i => decide (i = 0)) (broadcastOps 0)).any (fun n =>
        decide ((0, Out.nested ⟨5, 0, 4⟩ (.acquire 0)) ∈ n.log)) = true := by
    decide +kernel
  obtain ⟨n, hn, hdec⟩ := (Option.any_eq_true _ _).mp hrun
  have hreach : Lib.Reachable (Lib.Restrict NetStep NamesWaitingLock)
      (.init fun i => decide (i = 0)) n := Lib.reachable_of_guarded (fun _ _ _ => id) hn
  obtain ⟨l, hl⟩ := hreach
  have hpath : Lib.Path NetStep (.init fun i => decide (i = 0)) l n := hl.mono fun _ _ _ => And.left
  exact ⟨n, ⟨l, hpath⟩, of_decide_eq_true hdec, (waiter_lock_given_back_iff hpath).mpr hl⟩

/-- The Broadcast names lock 1, and lock 1 is acquired for the client that gave up lock 0. -/
theorem broadcast_acquires_other_lock : ∃ n,
    Lib.Reachable NetStep (.init fun i => decide (i = 0)) n ∧
      (⟨5, 0, 4⟩, Request.wait 0 0) ∈ n.sent ∧
      (0, Out.nested ⟨5, 0, 4⟩ (.acquire 1)) ∈ n.log ∧ ¬ GivenBack n := by
  have hrun : (Lib.execute Network.next (.init fun i => decide (i = 0)) (broadcastOps 1)).any
      (fun n => decide ((⟨5, 0, 4⟩, Request.wait 0 0) ∈ n.sent ∧
        (0, Out.nested ⟨5, 0, 4⟩ (.acquire 1)) ∈ n.log ∧
        ∀ e ∈ n.sent, e.1 = ⟨5, 0, 4⟩ → e.2 = .wait 0 0)) = true := by
    decide +kernel
  obtain ⟨n, hn, hdec⟩ := (Option.any_eq_true _ _).mp hrun
  obtain ⟨hsent, hlog, hone⟩ := of_decide_eq_true hdec
  refine ⟨n, ⟨_, Lib.path_of_execute (fun _ _ _ => id) hn⟩, hsent, hlog, fun hback => ?_⟩
  obtain ⟨CVID, hwait⟩ := hback 0 ⟨5, 0, 4⟩ 1 hlog
  cases hone _ hwait rfl

end Nachos.Net

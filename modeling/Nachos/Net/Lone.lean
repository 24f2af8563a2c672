import Nachos.Net.Monitor
import Nachos.Net.Receive

/-!
# The service of a lone server

The runs of a server to which no other server is awake, over any sequence of lock and
condition requests in which a client sends nothing while it waits for an answer. Each client
that waits stands in exactly one queue, the queues are served in order, and a client is told
success when it is recorded as the owner of its lock.
-/

namespace Nachos.Net

/-! ## Creating -/

namespace Serves

variable {s : Server} {B : List (Sender × Request)} {hand : List Sender}

theorem crash_if (h : Custody s B hand) (b : Bool) :
    Serves s B (if b then [.crash] else []) s hand := by
  cases b with
  | true => exact note h rfl fun _ => ⟨rfl, rfl⟩
  | false =>
    exact of_silent (fun o ho => by cases ho) h rfl (fun queue => by simp [entered, left])
      fun index x hx => hx

/-- `createLockNamed`. -/
theorem createLockNamed (h : Custody s B hand) (name : String) :
    Serves s B (createLockNamed name s).2.2 (Net.createLockNamed name s).1 hand := by
  unfold Net.createLockNamed
  split
  · have hinsert : Serves s B []
        { s with serverLocks := (s.serverLocks.insert { name := name }).1 } hand := by
      refine of_silent (fun o ho => by cases ho) (h.insertLock rfl) rfl (fun queue => ?_) ?_
      · cases queue with
        | CV index => simp [entered, left, Server.queue]
        | lock index =>
          simp only [entered, left, Server.queue, List.filterMap_nil, List.append_nil,
            List.nil_append]
          exact (elim_insert h.tables.locks rfl index).symm
      · rintro index x ⟨l, hl, hx⟩
        rcases h.tables.locks.get?_insert_cases hl with rfl | hold
        · simp [ServerLock.isOwner] at hx
        · exact ⟨l, hold, hx⟩
    exact after_silent (fun o ho => by cases ho) h.apart hinsert
      (crash_if (h.insertLock rfl) _)
  · rename_i index _
    cases hl : s.serverLocks.get? (some index) with
    | some l => exact putLock h hl rfl (h.free _ l hl) fun x hx => hx
    | none => exact crash_if h false

/-- `createCVNamed`. -/
theorem createCVNamed (h : Custody s B hand) (name : String) :
    Serves s B (createCVNamed name s).2.2 (Net.createCVNamed name s).1 hand := by
  unfold Net.createCVNamed
  split
  · have hinsert : Serves s B []
        { s with serverCVs := (s.serverCVs.insert { name := name }).1 } hand := by
      refine of_silent (fun o ho => by cases ho) (h.insertCV rfl rfl) rfl (fun queue => ?_)
        fun index x hx => hx
      cases queue with
      | lock index => simp [entered, left, Server.queue]
      | CV index =>
        simp only [entered, left, Server.queue, List.filterMap_nil, List.append_nil,
          List.nil_append]
        exact (elim_insert h.tables.CVs rfl index).symm
    exact after_silent (fun o ho => by cases ho) h.apart hinsert
      (crash_if (h.insertCV rfl rfl) _)
  · rename_i index _
    cases hcv : s.serverCVs.get? (some index) with
    | some cv => exact putCV h hcv rfl rfl
    | none => exact crash_if h false

/-- The creates of locks and condition variables, for the client in hand. -/
theorem serverDoCreate {r r' : Request} {c : Sender} (h : Custody s B (c :: hand))
    (hmem : (c, r') ∈ B) (hr' : r'.waitsFor = none)
    (hr : (∃ name, r = .createLock name) ∨ ∃ name, r = .createCondition name) :
    Serves s B (serverDoCreate r c s).2 (serverDoCreate r c s).1 hand := by
  refine after_silent (fun o ho => by rw [List.mem_singleton.mp ho]; rfl) h.apart
    (exec h none c r) ?_
  rcases hr with ⟨name, rfl⟩ | ⟨name, rfl⟩
  · exact (createLockNamed h name).finish h.apart hmem hr' _
  · exact (createCVNamed h name).finish h.apart hmem hr' _

end Serves

/-! ## Runs -/

/-- A lone server with its clients. `blocked` are the requests that wait for an answer; the
other fields are auxiliary: `asked` are all requests that are answered, `log` is what the
server did. -/
structure Lone where
  server : Server
  nextTag : Nat := 0
  blocked : List (Sender × Request) := []
  asked : List (Sender × Request) := []
  log : List Out := []

/-- The server `i` has just started and no other server is awake. -/
def Lone.init (i : Nat) : Lone := { server := { netAddr := i, others := [] } }

/-- A request of a client thread. -/
structure Call where
  machine : Nat
  mailbox : Nat
  r : Request

/-- The requests on locks and condition variables. -/
def Request.isMonitor : Request → Bool
  | .createMV _ _ | .destroyMV _ | .set _ _ _ | .get _ _ => false
  | _ => true

/-- The client of the next request. -/
def Lone.client (m : Lone) (call : Call) : Sender := ⟨call.machine, call.mailbox, m.nextTag⟩

/-- What the server does for a request. -/
def Lone.reaction (m : Lone) (call : Call) : Server × List Out :=
  receive call.machine (.client (m.client call) call.r) m.server

/-- The entry of the next request among those that wait for an answer. -/
def Lone.opened (m : Lone) (call : Call) : List (Sender × Request) :=
  if call.r.answered then [(m.client call, call.r)] else []

/-- One request is sent and handled; a client that waits for an answer sends nothing. -/
def Lone.next (m : Lone) (call : Call) : Option Lone :=
  if call.r.isMonitor = true ∧ (∀ b ∈ m.blocked, b.1.same (m.client call) = false) then
    some {
      server := (m.reaction call).1
      nextTag := m.nextTag + 1
      blocked := unanswered (m.reaction call).2 (m.blocked ++ m.opened call)
      asked := m.asked ++ m.opened call
      log := m.log ++ (m.reaction call).2 }
  else none

def LoneStep (m : Lone) (call : Call) (m' : Lone) : Prop := m.next call = some m'

/-- A broadcast that finds clients in the queue names the lock they wait with, or a lock that
is not there. -/
def NamesLock (m : Lone) (call : Call) : Prop :=
  match call.r with
  | .broadcast CVID lockID =>
    m.server.serverLocks.get? (checkIfLockIsMineAndGetMyIndex m.server lockID) = none ∨
      ∀ cv ∈ m.server.serverCVs.get? (checkIfCVIsMineAndGetMyIndex m.server CVID),
        cv.q ≠ [] → cv.waitingLock = some lockID
  | _ => True

instance (m : Lone) (call : Call) : Decidable (NamesLock m call) := by
  unfold NamesLock
  split <;> infer_instance

/-- The functions of the lock and condition requests with an id, at the index of the id. -/
theorem Serves.serverDo {s : Server} {B : List (Sender × Request)} {r : Request} {c : Sender}
    {id : Nat} (hid : r.id = some id) (hmonitor : r.isMonitor = true)
    (h : Custody s B (if r.answered then [c] else []))
    (hmem : r.answered = true → (c, r) ∈ B)
    (hnames : ∀ CVID lockID, r = .broadcast CVID lockID →
      s.serverLocks.get? (checkIfLockIsMineAndGetMyIndex s lockID) = none ∨
        ∀ cv, s.serverCVs.get? (r.myIndex s) = some cv → cv.q ≠ [] →
          cv.waitingLock = some lockID) :
    Serves s B (serverDo r (r.myIndex s) c s).2 (Net.serverDo r (r.myIndex s) c s).1 [] := by
  cases r with
  | acquire lockID => exact (Serves.acquire h (hmem rfl) (.inr ⟨lockID, rfl, rfl⟩)).1
  | release lockID => exact Serves.release h _ c
  | destroyLock lockID => exact Serves.destroyLock h _
  | wait CVID lockID => exact Serves.wait h (hmem rfl)
  | signal CVID lockID => exact Serves.signal h (hmem rfl)
  | broadcast CVID lockID => exact Serves.broadcast h (hmem rfl) (hnames CVID lockID rfl)
  | destroyCondition CVID => exact Serves.destroyCV h _
  | createLock | createCondition | createMV => cases hid
  | destroyMV | set | get => cases hmonitor

/-- What a step does for the client in hand. -/
theorem Lone.serves {m : Lone} {call : Call} (hmonitor : call.r.isMonitor = true)
    (hnames : NamesLock m call) {B : List (Sender × Request)}
    (h : Custody m.server B (if call.r.answered then [m.client call] else []))
    (hmem : call.r.answered = true → (m.client call, call.r) ∈ B) :
    Serves m.server B (m.reaction call).2 (m.reaction call).1 [] := by
  obtain ⟨f, hspec, hf⟩ := receive_spec call.machine m.server (.client (m.client call) call.r)
  rw [Lone.reaction, hf]
  have hcreate : call.r.id = none → ∀ s, Custody s B (if call.r.answered then [m.client call] else []) →
      Serves s B (serverDoCreate call.r.read (m.client call) s).2
        (serverDoCreate call.r.read (m.client call) s).1 [] := by
    intro hid s hs
    obtain ⟨machine, mailbox, r⟩ := call
    cases r with
    | createLock name => exact Serves.serverDoCreate hs (hmem rfl) rfl (.inl ⟨_, rfl⟩)
    | createCondition name => exact Serves.serverDoCreate hs (hmem rfl) rfl (.inr ⟨_, rfl⟩)
    | createMV => cases hmonitor
    | _ => cases hid
  cases hspec with
  | clientId hid =>
    obtain ⟨k, hk⟩ := Serves.serve_lone h.others hid (m.client call)
    rw [hk]
    refine Serves.execute h fun hk => Serves.serverDo hid hmonitor hk hmem fun CVID lockID hr => ?_
    simp only [NamesLock, hr] at hnames
    rw [hr]
    exact hnames
  | clientHas hid hhas => exact hcreate hid _ h
  | clientAsk hid hhas hothers => exact absurd h.others hothers
  | clientAlone hid hhas hothers =>
    have hserves := hcreate hid _ (h.renumber (m.server.pendingRequestCount + 1))
    exact ⟨hserves.custody, hserves.netAddr, hserves.fifo, hserves.granted, hserves.recorded,
      hserves.only, hserves.once⟩

/-- A new client is taken in hand. -/
theorem Custody.open {s : Server} {B : List (Sender × Request)} (h : Custody s B []) {c : Sender}
    (hc : ∀ b ∈ B, b.1.same c = false) (r : Request) : Custody s (B ++ [(c, r)]) [c] where
  others := h.others
  tables := h.tables
  free := h.free
  lockQ lockID l hl x hx := by
    obtain ⟨r', L, hr', hL⟩ := h.lockQ lockID l hl x hx
    exact ⟨r', L, List.mem_append_left _ hr', hL⟩
  CVQ CVID cv hcv x hx := by
    obtain ⟨r', L, hr', hL⟩ := h.CVQ CVID cv hcv x hx
    exact ⟨r', L, List.mem_append_left _ hr', hL⟩
  waiting := h.waiting
  placed x := by
    have hx := h.placed x
    rw [List.countP_append, List.countP_cons, List.countP_cons, List.countP_nil, List.countP_nil]
    rw [List.countP_nil] at hx
    dsimp only
    omega
  apart := by
    refine List.pairwise_append.mpr ⟨h.apart, List.pairwise_singleton _ _, fun b hb b' hb' => ?_⟩
    rw [List.mem_singleton.mp hb']
    exact hc b hb

/-- The invariant of the runs. -/
structure Lone.Ok (m : Lone) : Prop where
  custody : Custody m.server m.blocked []
  sub : ∀ b ∈ m.blocked, b ∈ m.asked
  tags : ∀ b ∈ m.asked, b.1.tag < m.nextTag
  unique : ∀ a ∈ m.asked, ∀ b ∈ m.asked, a.1 = b.1 → a = b
  once : ∀ b ∈ m.asked, answersTo b.1 m.log = if b ∈ m.blocked then 0 else 1
  fresh : ∀ c, m.nextTag ≤ c.tag → answersTo c m.log = 0
  fifo : ∀ queue, entered queue m.log = left queue m.log ++ m.server.queue queue

theorem Lone.ok_init (i : Nat) : (Lone.init i).Ok where
  custody := by
    refine ⟨rfl, ⟨Table.ok_empty _, Table.ok_empty _, Table.ok_empty _⟩, ?_, ?_, ?_, ?_, ?_, .nil⟩
    · rintro (_ | i) l hl <;> cases hl
    · rintro (_ | i) l hl <;> cases hl
    · rintro (_ | i) cv hcv <;> cases hcv
    · rintro (_ | i) cv hcv <;> cases hcv
    · exact fun x => rfl
  sub b hb := by cases hb
  tags b hb := by cases hb
  unique a ha := by cases ha
  once b hb := by cases hb
  fresh c _ := rfl
  fifo queue := by
    cases queue with
    | lock index => cases index <;> rfl
    | CV index => cases index <;> rfl

/-- Among the requests that wait, an answer to the mailbox is the answer to the request. -/
theorem Serves.answersTo_eq {s s' : Server} {B : List (Sender × Request)} {out : List Out}
    {hand : List Sender} (h : Serves s B out s' hand) (hapart : Apart B) {b : Sender × Request}
    (hb : b ∈ B) : answersTo b.1 out = if answered out b.1 then 1 else 0 := by
  have honce := h.once b.1
  split
  · rename_i hanswered
    obtain ⟨o, ho, c, hc, hsame⟩ := answered_iff.mp hanswered
    obtain ⟨r, hr⟩ := h.only o ho c hc
    cases hapart.eq hr hb hsame
    have hpos : 0 < answersTo c out := List.countP_pos_iff.mpr ⟨o, ho, decide_eq_true hc⟩
    exact Nat.le_antisymm honce hpos
  · rename_i hnot
    by_contra hne
    exact hnot (answered_of_answersTo (Nat.pos_of_ne_zero hne))

section Step

variable {m : Lone} {call : Call}

theorem Lone.mem_opened {b : Sender × Request} (h : b ∈ m.opened call) :
    b = (m.client call, call.r) ∧ call.r.answered = true := by
  unfold Lone.opened at h
  split at h
  · exact ⟨List.mem_singleton.mp h, by assumption⟩
  · cases h

/-- The custody when a request is taken up. -/
theorem Lone.Ok.opened (h : m.Ok)
    (hfree : ∀ b ∈ m.blocked, b.1.same (m.client call) = false) :
    Custody m.server (m.blocked ++ m.opened call) (if call.r.answered then [m.client call] else []) := by
  unfold Lone.opened
  split
  · exact h.custody.open hfree call.r
  · rw [List.append_nil]
    exact h.custody

/-- What a step from a good state does. -/
theorem Lone.Ok.serves (h : m.Ok) (hmonitor : call.r.isMonitor = true)
    (hfree : ∀ b ∈ m.blocked, b.1.same (m.client call) = false) (hnames : NamesLock m call) :
    Serves m.server (m.blocked ++ m.opened call) (m.reaction call).2 (m.reaction call).1 [] := by
  refine Lone.serves hmonitor hnames (h.opened hfree) fun hanswered => ?_
  rw [Lone.opened, if_pos hanswered]
  exact List.mem_append_right _ (List.mem_singleton_self _)

/-- An answer in a step is to a request that waits. -/
theorem Lone.Ok.mem_of_answered (h : m.Ok) {out : List Out} {s' : Server}
    (hserves : Serves m.server (m.blocked ++ m.opened call) out s' []) {b : Sender × Request}
    (hb : b ∈ m.asked ++ m.opened call) {o : Out} (ho : o ∈ out) (hc : o.answerTo = some b.1) :
    b ∈ m.blocked ++ m.opened call := by
  obtain ⟨r, hr⟩ := hserves.only o ho b.1 hc
  rcases List.mem_append.mp hb with hb | hb
  · rcases List.mem_append.mp hr with hr | hr
    · rw [h.unique b hb _ (h.sub _ hr) rfl]
      exact List.mem_append_left _ hr
    · -- the new request has a tag of its own
      have htag := h.tags b hb
      rw [(Prod.ext_iff.mp (Lone.mem_opened hr).1).1] at htag
      exact absurd htag (Nat.lt_irrefl _)
  · exact List.mem_append_right _ hb

theorem Lone.Ok.step (h : m.Ok) {m' : Lone} (hstep : LoneStep m call m')
    (hnames : NamesLock m call) : m'.Ok := by
  unfold LoneStep Lone.next at hstep
  split at hstep
  case isFalse => cases hstep
  case isTrue hcond =>
  cases hstep
  have hserves := h.serves hcond.1 hcond.2 hnames
  have hcustody : Custody m.server (m.blocked ++ m.opened call) _ := h.opened hcond.2
  have hapart := hcustody.apart
  have hsub : ∀ b ∈ m.blocked ++ m.opened call, b ∈ m.asked ++ m.opened call := by
    intro b hb
    rcases List.mem_append.mp hb with hb | hb
    · exact List.mem_append_left _ (h.sub b hb)
    · exact List.mem_append_right _ hb
  have hnew : ∀ b ∈ m.asked, ∀ b' ∈ m.opened call, b.1 ≠ b'.1 := by
    intro b hb b' hb' heq
    have htag := h.tags b hb
    rw [heq, (Lone.mem_opened hb').1] at htag
    exact absurd htag (Nat.lt_irrefl _)
  refine ⟨hserves.custody, fun b hb => hsub b (mem_unanswered.mp hb).1, fun b hb => ?_,
    fun a ha b hb hab => ?_, fun b hb => ?_, fun c hc => ?_, fun queue => ?_⟩
  · rcases List.mem_append.mp hb with hb | hb
    · exact Nat.lt_succ_of_lt (h.tags b hb)
    · rw [(Lone.mem_opened hb).1]
      exact Nat.lt_succ_self _
  · rcases List.mem_append.mp ha with ha | ha <;> rcases List.mem_append.mp hb with hb | hb
    · exact h.unique a ha b hb hab
    · exact absurd hab (hnew a ha b hb)
    · exact absurd hab.symm (hnew b hb a ha)
    · rw [(Lone.mem_opened ha).1, (Lone.mem_opened hb).1]
  · rw [answersTo_append]
    by_cases hwaits : b ∈ m.blocked ++ m.opened call
    · -- the request waits: it has no answer so far
      have hzero : answersTo b.1 m.log = 0 := by
        rcases List.mem_append.mp hwaits with hb | hb
        · rw [h.once b (h.sub b hb), if_pos hb]
        · refine h.fresh b.1 ?_
          rw [(Lone.mem_opened hb).1]
          exact Nat.le_refl _
      rw [hzero, Nat.zero_add, hserves.answersTo_eq hapart hwaits]
      cases hanswered : answered (m.reaction call).2 b.1 with
      | true =>
        rw [if_pos rfl, if_neg]
        intro hb
        cases (mem_unanswered.mp hb).2.symm.trans hanswered
      | false => rw [if_neg Bool.false_ne_true, if_pos (mem_unanswered.mpr ⟨hwaits, hanswered⟩)]
    · have hnone : answersTo b.1 (m.reaction call).2 = 0 := by
        refine List.countP_eq_zero.mpr fun o ho hc => hwaits ?_
        exact h.mem_of_answered hserves hb ho (of_decide_eq_true hc)
      have hasked : b ∈ m.asked := (List.mem_append.mp hb).resolve_right fun hopen =>
        hwaits (List.mem_append_right _ hopen)
      rw [hnone, h.once b hasked, if_neg fun hb => hwaits (List.mem_append_left _ hb),
        if_neg fun hb => hwaits (mem_unanswered.mp hb).1]
  · rw [answersTo_append, h.fresh c (by dsimp only at hc; omega), Nat.zero_add]
    refine List.countP_eq_zero.mpr fun o ho hanswer => ?_
    obtain ⟨r, hr⟩ := hserves.only o ho c (of_decide_eq_true hanswer)
    have hle : c.tag ≤ m.nextTag := by
      rcases List.mem_append.mp hr with hr | hr
      · exact Nat.le_of_lt (h.tags _ (h.sub _ hr))
      · have hclient : c = m.client call := (Prod.ext_iff.mp (Lone.mem_opened hr).1).1
        rw [hclient]
        exact Nat.le_refl _
    dsimp only at hc
    omega
  · rw [entered_append, left_append, h.fifo queue, List.append_assoc, hserves.fifo queue,
      List.append_assoc]

end Step

/-! ## The service -/

/-- A FIFO monitor service: a free lock has an empty queue; a client that waits stands in
exactly one queue, once; each queue is served in the order of arrival; each request is
answered once, when it waits no longer; and in the next step success is told to the client
of an acquire or a wait when it is recorded as the owner of the lock, and to everyone that is
newly recorded. -/
structure Lone.Monitor (m : Lone) : Prop where
  free : ∀ lockID l, m.server.serverLocks.get? lockID = some l → l.state = .FREE → l.q = []
  placed : ∀ b ∈ m.blocked, m.server.places b.1 = 1
  fifo : ∀ queue, entered queue m.log = left queue m.log ++ m.server.queue queue
  once : ∀ b ∈ m.asked, answersTo b.1 m.log = if b ∈ m.blocked then 0 else 1
  granted : ∀ call m', LoneStep m call m' → NamesLock m call →
    ∀ c r L, (c, r) ∈ m'.asked → r.waitsFor = some L →
      (∃ o ∈ (m.reaction call).2, o.grantTo = some c) →
      m'.server.holds (checkIfLockIsMineAndGetMyIndex m'.server L) c
  recorded : ∀ call m', LoneStep m call m' → NamesLock m call →
    ∀ lockID x, m'.server.holds lockID x → m.server.holds lockID x ∨
      Net.granted (m.reaction call).2 x = true

/-- Two threads on machine 5: the first creates two locks and a condition variable and waits
on it with lock 0, the second broadcasts with the given lock. -/
def broadcastRun (lockID : Nat) : List Call :=
  [⟨5, 0, .createLock "a"⟩, ⟨5, 0, .createLock "b"⟩, ⟨5, 0, .createCondition "v"⟩,
    ⟨5, 0, .acquire 0⟩, ⟨5, 0, .wait 0 0⟩, ⟨5, 1, .broadcast 0 lockID⟩]

end Nachos.Net

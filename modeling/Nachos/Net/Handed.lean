import Nachos.Net.Numbering

/-!
# What is handed on

Servers make up nothing about a request: what they send on, keep pending and run is what a
client sent them, or an Acquire or Release for a client that waits. So a property `P` of
requests and their clients that every call has, and that what is started for a waiting
client has, holds of everything the servers handle (`Handed.receive`).
-/

namespace Nachos.Net

/-- The request in the mail has the property. -/
def Body.Has (P : Sender → Request → Prop) : Body → Prop
  | .client c r => P c r.read
  | .request _ c r | .reply _ c r _ => P c r
  | .answer _ _ => True

/-- What was sent, run or started has the property. -/
def Out.Has (P : Sender → Request → Prop) : Out → Prop
  | .mail _ body => body.Has P
  | .exec _ c r | .nested c r => P c r
  | .enter _ _ | .leave _ _ | .crash => True

/-- Every request has the property `P`, and every client that waits the property `A`. -/
structure Handed (P : Sender → Request → Prop) (A : Sender → Prop) (n : Network) : Prop where
  mails : ∀ m ∈ n.mails, m.body.Has P
  pending : ∀ j, ∀ p ∈ (n.server j).pendingRequests, P p.c p.r
  waiting : ∀ j x, Waiting (n.server j) x → A x
  log : ∀ e ∈ n.log, e.2.Has P

theorem handed_init (P : Sender → Request → Prop) (A : Sender → Prop) (up : Nat → Bool) :
    Handed P A (.init up) where
  mails _ h := by cases h
  pending _ _ h := by cases h
  waiting _ _ h := by
    obtain ⟨_, h, -⟩ := h
    cases h
  log _ h := by cases h

theorem Body.Has.mono {P Q : Sender → Request → Prop} (h : ∀ c r, P c r → Q c r) {body : Body}
    (hbody : body.Has P) : body.Has Q := by
  cases body with
  | answer => trivial
  | client | request | reply => exact h _ _ hbody

theorem Out.Has.mono {P Q : Sender → Request → Prop} (h : ∀ c r, P c r → Q c r) {o : Out}
    (ho : o.Has P) : o.Has Q := by
  cases o with
  | mail => exact Body.Has.mono h ho
  | exec | nested => exact h _ _ ho
  | enter | leave | crash => trivial

namespace Handed

variable {P Q : Sender → Request → Prop} {A B : Sender → Prop} {n : Network} {i : Nat}

theorem mono (h : Handed P A n) (hP : ∀ c r, P c r → Q c r) (hA : ∀ x, A x → B x) :
    Handed Q B n where
  mails m hm := (h.mails m hm).mono hP
  pending j p hp := hP _ _ (h.pending j p hp)
  waiting j x hx := hA x (h.waiting j x hx)
  log e he := (h.log e he).mono hP

/-- Code keeps the property when what it makes pending, queues, sends and runs has it. -/
theorem run {f : Act} (h : Handed P A n)
    (hpending : ∀ p ∈ (f (n.server i)).1.pendingRequests, P p.c p.r)
    (hwaiting : ∀ x, Waiting (f (n.server i)).1 x → A x)
    (hout : ∀ o ∈ (f (n.server i)).2, o.Has P) : Handed P A (n.run i f) where
  mails m hm := by
    rcases List.mem_append.mp hm with hm | hm
    · exact h.mails m hm
    · exact hout _ (mem_mailsOf hm).2
  pending j p hp := by
    by_cases hj : j = i
    · subst hj
      rw [Network.run_server_self] at hp
      exact hpending p hp
    · rw [Network.run_server_of_ne _ _ _ hj] at hp
      exact h.pending j p hp
  waiting j x hx := by
    by_cases hj : j = i
    · subst hj
      rw [Network.run_server_self] at hx
      exact hwaiting x hx
    · rw [Network.run_server_of_ne _ _ _ hj] at hx
      exact h.waiting j x hx
  log e he := by
    rcases List.mem_append.mp he with he | he
    · exact h.log e he
    · obtain ⟨o, ho, rfl⟩ := List.mem_map.mp he
      exact hout o ho

/-- Code that leaves the queues alone. -/
theorem run_update {f : Act} (h : Handed P A n)
    (hpending : ∀ p ∈ (f (n.server i)).1.pendingRequests, P p.c p.r)
    (hCVs : (f (n.server i)).1.serverCVs = (n.server i).serverCVs)
    (hout : ∀ o ∈ (f (n.server i)).2, o.Has P) : Handed P A (n.run i f) := by
  refine h.run hpending (fun x hx => ?_) hout
  obtain ⟨cv, hcv, hx⟩ := hx
  exact h.waiting i x ⟨cv, hCVs ▸ hcv, hx⟩

theorem run_quiet {f : Act} (h : Handed P A n)
    (hf : Quiet A (n.server i) (f (n.server i)).2 (f (n.server i)).1) :
    Handed P A (n.run i f) := by
  refine h.run (fun p hp => h.pending i p (hf.pending ▸ hp))
    (fun x hx => (hf.waiting x hx).elim (h.waiting i x) id) fun o ho => ?_
  have hplain := hf.plain o ho
  cases o with
  | mail dst body =>
    cases body with
    | answer c a => trivial
    | client | request | reply => exact hplain.elim
  | exec | nested => exact hplain.elim
  | enter | leave | crash => trivial

theorem run_exec (h : Handed P A n) (index : Option Nat) {c : Sender} {r : Request}
    (hr : P c r) : Handed P A (n.run i (.emit (.exec index c r))) := by
  refine h.run_update (h.pending i) rfl fun o ho => ?_
  rw [List.mem_singleton.mp ho]
  exact hr

theorem run_useNumber (h : Handed P A n) : Handed P A (n.run i useNumber) :=
  h.run_update (h.pending i) rfl (by simp [useNumber])

theorem run_askOthers (h : Handed P A n) {c : Sender} {r : Request} (hr : P c r) :
    Handed P A (n.run i (askOthers c r)) := by
  refine h.run_update (fun p hp => ?_) rfl fun o ho => ?_
  · rcases List.mem_append.mp hp with hp | hp
    · exact h.pending i p hp
    · rw [List.mem_singleton.mp hp]
      exact hr
  · obtain ⟨d, -, rfl⟩ := List.mem_map.mp ho
    exact hr

theorem run_sendReply (h : Handed P A n) {c : Sender} {r : Request} (hr : P c r) (src rid : Nat)
    (response : Bool) : Handed P A (n.run i (sendReply src rid c r response)) := by
  refine h.run_update (h.pending i) rfl fun o ho => ?_
  rw [List.mem_singleton.mp ho]
  exact hr

theorem run_adopt (h : Handed P A n) {c : Sender} {r : Request} (hr : P c r) :
    Handed P A (n.run i (adopt c r)) := by
  refine h.run_update (fun p hp => ?_) rfl (by simp [adopt])
  rcases List.mem_append.mp hp with hp | hp
  · exact h.pending i p hp
  · rw [List.mem_singleton.mp hp]
    exact hr

theorem run_deletePendingRequest (h : Handed P A n) (index : Nat) :
    Handed P A (n.run i (deletePendingRequest index)) :=
  h.run_update (fun p hp => h.pending i p (List.mem_of_mem_eraseIdx hp)) rfl
    (by simp [deletePendingRequest])

theorem run_dropNamed (h : Handed P A n) (r : Request) : Handed P A (n.run i (dropNamed r)) :=
  h.run_update (fun p hp => h.pending i p (List.mem_filter.mp hp).1) rfl (by simp [dropNamed])

theorem run_countNo (h : Handed P A n) {index : Nat} {p : PendingRequest}
    (hp : (n.server i).pendingRequests[index]? = some p) :
    Handed P A (n.run i (.update (countNo index p))) := by
  refine h.run_update (fun q hq => ?_) rfl (by simp)
  rcases List.mem_or_eq_of_mem_set hq with hq | rfl
  · exact h.pending i q hq
  · exact h.pending i p (List.mem_of_getElem? hp)

theorem run_serverDoCreate (h : Handed P A n) {r : Request} {c : Sender} (hr : P c r) :
    Handed P A (n.run i (serverDoCreate r c)) := by
  rw [serverDoCreate_eq, Network.run_andThen]
  exact (h.run_exec none hr).run_quiet (.createBody r c _)

theorem run_createAll (h : Handed P A n) {l : List PendingRequest} (hl : ∀ p ∈ l, P p.c p.r) :
    Handed P A (n.run i (createAll l)) := by
  induction l generalizing n with
  | nil =>
    rw [createAll, Network.run_skip]
    exact h
  | cons p rest ih =>
    rw [createAll, Network.run_andThen]
    exact ih (h.run_serverDoCreate (hl p List.mem_cons_self))
      fun q hq => hl q (List.mem_cons_of_mem p hq)

theorem run_createNamed (h : Handed P A n) (r : Request) :
    Handed P A (n.run i (createNamed r)) := by
  rw [Net.run_createNamed]
  exact (h.run_createAll fun p hp => h.pending i p (List.mem_filter.mp hp).1).run_dropNamed r

theorem withMails (h : Handed P A n) {l : List Mail} (hl : ∀ m ∈ l, m ∈ n.mails) :
    Handed P A (n.withMails l) :=
  ⟨fun m hm => h.mails m (hl m hm), h.pending, h.waiting, h.log⟩

section Receive

variable (hnested : ∀ c r, r.nestable = true → A c → P c r)
  (hwait : ∀ c CVID lockID, P c (.wait CVID lockID) → A c)

include hnested

/-- What has been taken up has the property as well. -/
theorem carries (i : Nat) : Carries i A fun owed n =>
    Handed P A n ∧ ∀ e ∈ owed, P e.1 e.2 where
  waiting _ _ x h hx := h.1.waiting i x hx
  quiet _ _ _ hf h := ⟨h.1.run_quiet hf, h.2⟩
  nested _ _ c r hr hc h := by
    refine ⟨h.1.run_update (h.1.pending i) rfl fun o ho => ?_, fun e he => ?_⟩
    · rw [List.mem_singleton.mp ho]
      exact hnested c r hr hc
    · rcases List.mem_cons.mp he with rfl | he
      · exact hnested c r hr hc
      · exact h.2 e he
  mine _ _ _ _ _ _ _ h :=
    ⟨h.1.run_exec _ (h.2 _ List.mem_cons_self), fun e he => h.2 e (List.mem_cons_of_mem _ he)⟩
  alone _ _ _ _ _ _ _ _ h :=
    ⟨h.1.run_useNumber.run_exec _ (h.2 _ List.mem_cons_self),
      fun e he => h.2 e (List.mem_cons_of_mem _ he)⟩
  away _ _ _ _ _ _ _ _ h _ :=
    ⟨h.1.run_askOthers (h.2 _ List.mem_cons_self), fun e he => h.2 e (List.mem_cons_of_mem _ he)⟩

include hwait

theorem run_serve (h : Handed P A n) {c : Sender} {r : Request} {id : Nat} (hid : r.id = some id)
    (hr : P c r) : Handed P A (n.run i (serve c r)) := by
  refine ((carries hnested i).serve [] hid ?_ ⟨h, fun e he => ?_⟩).1
  · rintro CVID lockID rfl
    exact hwait c CVID lockID hr
  · rw [List.mem_singleton.mp he]
    exact hr

theorem run_execute (h : Handed P A n) {c : Sender} {r : Request} (hr : P c r)
    (index : Option Nat) : Handed P A (n.run i (execute r index c)) := by
  rw [execute, Network.run_andThen]
  refine ((carries hnested i).serverDo [] r index c ?_ ⟨h.run_exec index hr, by simp⟩).1
  rintro CVID lockID rfl
  exact hwait c CVID lockID hr

/-- **Handling a mail** makes up no request. -/
theorem receive (h : Handed P A n) {m : Mail} (hok : MailOk n m) (hm : m.body.Has P) :
    Handed P A (n.run m.dst (receive m.src m.body)) := by
  obtain ⟨src, dst, body⟩ := m
  obtain ⟨f, hf, heq⟩ := receive_spec src (n.server dst) body
  rw [n.run_congr dst heq]
  cases hf with
  | clientId hid => exact h.run_serve hnested hwait hid (read_eq hid ▸ hm)
  | clientHas => exact h.run_serverDoCreate hm
  | clientAsk => exact h.run_askOthers hm
  | clientAlone =>
    rw [Network.run_andThen]
    exact h.run_useNumber.run_serverDoCreate hm
  | requestMine =>
    rw [Network.run_andThen]
    exact (h.run_sendReply hm _ _ true).run_execute hnested hwait hm _
  | requestOther | createNo => exact h.run_sendReply hm _ _ false
  | createHas =>
    rw [Network.run_andThen]
    exact (h.run_sendReply hm _ _ true).run_serverDoCreate hm
  | createAdopt =>
    rw [Network.run_andThen]
    exact (h.run_sendReply hm _ _ true).run_adopt hm
  | replyNone | answer =>
    rw [Network.run_skip]
    exact h
  | replyYes => exact h.run_deletePendingRequest _
  | replyLast hid hfind hp =>
    simp only [Network.run_andThen]
    -- the entry is the one the reply is about, so its client is the one in the mail
    have hclient := (hok.agree _ (List.mem_of_getElem? hp) (found_requestID hfind hp)).1
    have hr := hm
    rw [← hclient] at hr
    exact ((h.run_countNo hp).run_execute hnested hwait hr _).run_deletePendingRequest _
  | replyNo hid hfind hp | createReplyNo hid hread hfind hp => exact h.run_countNo hp
  | createReplyYes =>
    rw [Network.run_andThen]
    exact (h.run_deletePendingRequest _).run_dropNamed _
  | createReplyLast hid hread hfind hp =>
    simp only [Network.run_andThen]
    have hr := h.pending dst _ (List.mem_of_getElem? hp)
    exact (((h.run_countNo hp).run_serverDoCreate hr).run_deletePendingRequest _).run_createNamed _

/-- **A step** in which the clients send only what has the property. -/
theorem step (hn : Numbered n) (h : Handed P A n) {op : Op} {n' : Network}
    (hsend : ∀ machine mailbox dst r, op = .send machine mailbox dst r →
      P ⟨machine, mailbox, n.nextTag⟩ r.read)
    (hstep : NetStep n op n') : Handed P A n' := by
  cases netStep_spec hstep with
  | @send machine mailbox dst r hmachine hdst =>
    refine ⟨fun m hm => ?_, h.pending, h.waiting, h.log⟩
    rcases List.mem_append.mp hm with hm | hm
    · exact h.mails m hm
    · rw [List.mem_singleton.mp hm]
      exact hsend _ _ _ _ rfl
  | @deliver _ m _ hmails hdst =>
    have hm : m ∈ n.mails := by simp [hmails]
    exact (h.withMails fun _ hm' => hmails ▸ mem_of_mem_remove hm').receive hnested hwait
      ((hn.mails m hm).of_eq rfl rfl) (h.mails m hm)
  | take hmails => exact h.withMails fun _ hm' => hmails ▸ mem_of_mem_remove hm'

end Receive

end Handed

end Nachos.Net

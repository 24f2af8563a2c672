import Mathlib.Data.List.Nodup
import Nachos.Net.Forwarding

/-!
# Requests and their clients

Each request of a client has a number of its own, and what a server starts on behalf of a
client it starts for one that waits (`Traced`). With `Forwarded` this gives the forwarding
theorem: every request with an id of an awake server is run exactly once, there.
-/

namespace Nachos.Net

/-- The client has sent a Wait. -/
def Waiter (sent : List (Sender × Request)) (x : Sender) : Prop :=
  ∃ CVID lockID, (x, Request.wait CVID lockID) ∈ sent

/-- The request, if it is a Wait, is one of a client that sent a Wait. -/
def WaitTraced (sent : List (Sender × Request)) (c : Sender) (r : Request) : Prop :=
  ∀ CVID lockID, r = .wait CVID lockID → Waiter sent c

def TracedMail (sent : List (Sender × Request)) (m : Mail) : Prop :=
  match m.body with
  | .client c r => (c, r) ∈ sent
  | .request _ c r | .reply _ c r _ => WaitTraced sent c r
  | .answer _ _ => True

structure Traced (n : Network) : Prop where
  tag_lt : ∀ e ∈ n.sent, e.1.tag < n.nextTag
  distinct : (n.sent.map fun e => e.1.tag).Nodup
  mails : ∀ m ∈ n.mails, TracedMail n.sent m
  pending : ∀ j, ∀ p ∈ (n.server j).pendingRequests, WaitTraced n.sent p.c p.r
  waiting : ∀ j x, Waiting (n.server j) x → Waiter n.sent x
  nested : ∀ j c r, (j, Out.nested c r) ∈ n.log → r.nestable = true ∧ Waiter n.sent c

theorem traced_init (up : Nat → Bool) : Traced (.init up) where
  tag_lt _ h := by cases h
  distinct := List.nodup_nil
  mails _ h := by cases h
  pending _ _ h := by cases h
  waiting _ _ h := by
    obtain ⟨_, h, -⟩ := h
    cases h
  nested _ _ _ h := by cases h

theorem waitTraced_of_id {sent : List (Sender × Request)} {r : Request} (h : r.id = none)
    (c : Sender) : WaitTraced sent c r := by
  rintro CVID lockID rfl
  cases h

namespace Traced

variable {n : Network} {i : Nat}

/-- Code keeps the trace when what it makes pending, sends, queues and starts is traced. -/
theorem run {f : Act} (h : Traced n)
    (hpending : ∀ p ∈ (f (n.server i)).1.pendingRequests, WaitTraced n.sent p.c p.r)
    (hwaiting : ∀ x, Waiting (f (n.server i)).1 x → Waiter n.sent x)
    (hmails : ∀ m ∈ mailsOf i (f (n.server i)).2, TracedMail n.sent m)
    (hnested : ∀ c r, Out.nested c r ∈ (f (n.server i)).2 →
      r.nestable = true ∧ Waiter n.sent c) : Traced (n.run i f) where
  tag_lt := h.tag_lt
  distinct := h.distinct
  mails m hm := (List.mem_append.mp hm).elim (h.mails m) (hmails m)
  pending j p hp := by
    by_cases hj : j = i
    · subst hj
      rw [Network.run_server_self] at hp
      exact hpending p hp
    · rw [Network.run_server_of_ne _ _ _ hj] at hp
      exact h.pending j p hp
  waiting j x hx := by
    by_cases hj : j = i
    · subst hj
      rw [Network.run_server_self] at hx
      exact hwaiting x hx
    · rw [Network.run_server_of_ne _ _ _ hj] at hx
      exact h.waiting j x hx
  nested j c r ho := by
    rcases List.mem_append.mp ho with ho | ho
    · exact h.nested j c r ho
    · obtain ⟨o, ho, heq⟩ := List.mem_map.mp ho
      cases heq
      exact hnested c r ho

/-- Code that sends no mail, starts nothing, and queues nobody. -/
theorem run_update {f : Act} (h : Traced n)
    (hpending : ∀ p ∈ (f (n.server i)).1.pendingRequests, WaitTraced n.sent p.c p.r)
    (hCVs : (f (n.server i)).1.serverCVs = (n.server i).serverCVs)
    (hout : ∀ o ∈ (f (n.server i)).2, ∃ index c r, o = .exec index c r) : Traced (n.run i f) := by
  refine h.run hpending (fun x hx => ?_) (fun m hm => ?_) fun c r ho => ?_
  · obtain ⟨cv, hcv, hx⟩ := hx
    exact h.waiting i x ⟨cv, hCVs ▸ hcv, hx⟩
  · obtain ⟨_, _, _, heq⟩ := hout _ (mem_mailsOf hm).2
    cases heq
  · obtain ⟨_, _, _, heq⟩ := hout _ ho
    cases heq

theorem run_quiet {f : Act} (h : Traced n)
    (hf : Quiet (Waiter n.sent) (n.server i) (f (n.server i)).2 (f (n.server i)).1) :
    Traced (n.run i f) := by
  refine h.run (fun p hp => h.pending i p (hf.pending ▸ hp))
    (fun x hx => (hf.waiting x hx).elim (h.waiting i x) id) (fun m hm => ?_)
    fun c r ho => (hf.plain _ ho).elim
  have hplain := hf.plain _ (mem_mailsOf hm).2
  obtain ⟨src, dst, body⟩ := m
  cases body with
  | answer c a => trivial
  | client | request | reply => exact hplain.elim

theorem run_exec (h : Traced n) (index : Option Nat) (c : Sender) (r : Request) :
    Traced (n.run i (.emit (.exec index c r))) :=
  h.run_update (h.pending i) rfl fun _ ho => ⟨index, c, r, List.mem_singleton.mp ho⟩

theorem run_nested (h : Traced n) {c : Sender} {r : Request} (hr : r.nestable = true)
    (hc : Waiter n.sent c) : Traced (n.run i (.emit (.nested c r))) := by
  refine h.run (h.pending i) (h.waiting i) (by simp) fun c' r' ho => ?_
  cases List.mem_singleton.mp ho
  exact ⟨hr, hc⟩

theorem run_askOthers (h : Traced n) {c : Sender} {r : Request} (hc : WaitTraced n.sent c r) :
    Traced (n.run i (askOthers c r)) := by
  refine h.run (fun p hp => ?_) (h.waiting i) (fun m hm => ?_) (by simp [askOthers])
  · rcases List.mem_append.mp hp with hp | hp
    · exact h.pending i p hp
    · rw [List.mem_singleton.mp hp]
      exact hc
  · rw [askOthers, mailsOf_map] at hm
    obtain ⟨d, -, rfl⟩ := List.mem_map.mp hm
    exact hc

theorem run_sendReply (h : Traced n) {c : Sender} {r : Request} (hc : WaitTraced n.sent c r)
    (src rid : Nat) (response : Bool) : Traced (n.run i (sendReply src rid c r response)) := by
  refine h.run (h.pending i) (h.waiting i) (fun m hm => ?_) (by simp [sendReply])
  rw [List.mem_singleton.mp hm]
  exact hc

theorem run_deletePendingRequest (h : Traced n) (index : Nat) :
    Traced (n.run i (deletePendingRequest index)) :=
  h.run_update (fun p hp => h.pending i p (List.mem_of_mem_eraseIdx hp)) rfl
    (by simp [deletePendingRequest])

theorem run_dropNamed (h : Traced n) (r : Request) : Traced (n.run i (dropNamed r)) :=
  h.run_update (fun p hp => h.pending i p (List.mem_filter.mp hp).1) rfl (by simp [dropNamed])

theorem run_countNo (h : Traced n) {index : Nat} {p : PendingRequest}
    (hp : (n.server i).pendingRequests[index]? = some p) :
    Traced (n.run i (.update (countNo index p))) := by
  refine h.run_update (fun q hq => ?_) rfl (by simp)
  rcases List.mem_or_eq_of_mem_set hq with hq | rfl
  · exact h.pending i q hq
  · exact h.pending i p (List.mem_of_getElem? hp)

theorem run_serverDoCreate (h : Traced n) (r : Request) (c : Sender) :
    Traced (n.run i (serverDoCreate r c)) := by
  rw [serverDoCreate_eq, Network.run_andThen]
  exact (h.run_exec none c r).run_quiet (.createBody r c _)

theorem run_createAll (h : Traced n) (l : List PendingRequest) :
    Traced (n.run i (createAll l)) := by
  induction l generalizing n with
  | nil =>
    rw [createAll, Network.run_skip]
    exact h
  | cons p rest ih =>
    rw [createAll, Network.run_andThen]
    exact ih (h.run_serverDoCreate p.r p.c)

theorem withMails (h : Traced n) {l : List Mail} (hl : ∀ m ∈ l, m ∈ n.mails) :
    Traced (n.withMails l) :=
  ⟨h.tag_lt, h.distinct, fun m hm => h.mails m (hl m hm), h.pending, h.waiting, h.nested⟩

end Traced

theorem traced_carries (i : Nat) (sent : List (Sender × Request)) :
    Carries i (Waiter sent) fun _ n => Traced n ∧ n.sent = sent where
  waiting _ _ x h hx := h.2 ▸ h.1.waiting i x hx
  quiet _ _ _ hf h := by
    obtain ⟨h, rfl⟩ := h
    exact ⟨h.run_quiet hf, rfl⟩
  nested _ _ _ _ hr hc h := by
    obtain ⟨h, rfl⟩ := h
    exact ⟨h.run_nested hr hc, rfl⟩
  mine _ _ c r _ _ _ h := ⟨h.1.run_exec _ c r, h.2⟩
  alone _ _ c r _ _ _ _ h :=
    ⟨(h.1.run_update (h.1.pending i) rfl (by simp [useNumber])).run_exec _ c r, h.2⟩
  away _ _ _ _ _ _ _ _ h hc := by
    obtain ⟨h, rfl⟩ := h
    exact ⟨h.run_askOthers hc, rfl⟩

/-- **Handling a mail keeps the trace.** -/
theorem Traced.receive {n : Network} (h : Traced n) {m : Mail} (hm : TracedMail n.sent m) :
    Traced (n.run m.dst (receive m.src m.body)) := by
  obtain ⟨src, dst, body⟩ := m
  obtain ⟨f, hf, heq⟩ := receive_spec src (n.server dst) body
  rw [n.run_congr dst heq]
  cases hf with
  | @clientId c r id hid =>
    refine ((traced_carries dst n.sent).serve [] hid ?_ ⟨h, rfl⟩).1
    rintro CVID lockID rfl
    exact ⟨CVID, lockID, hm⟩
  | clientHas => exact h.run_serverDoCreate _ _
  | clientAsk hid => exact h.run_askOthers (waitTraced_of_id (by rw [read_id, hid]) _)
  | clientAlone =>
    rw [Network.run_andThen]
    exact (h.run_update (h.pending dst) rfl (by simp [useNumber])).run_serverDoCreate _ _
  | requestMine =>
    simp only [execute, Network.run_andThen]
    exact ((traced_carries dst n.sent).serverDo [] _ _ _ hm
      ⟨(h.run_sendReply hm _ _ true).run_exec _ _ _, rfl⟩).1
  | requestOther | createNo => exact h.run_sendReply hm _ _ false
  | createHas =>
    rw [Network.run_andThen]
    exact (h.run_sendReply hm _ _ true).run_serverDoCreate _ _
  | createAdopt =>
    rw [Network.run_andThen]
    refine (h.run_sendReply hm _ _ true).run_update (fun p hp => ?_) rfl (by simp [adopt])
    rcases List.mem_append.mp hp with hp | hp
    · exact (h.run_sendReply hm _ _ true).pending dst p hp
    · rw [List.mem_singleton.mp hp]
      exact hm
  | replyNone | answer =>
    rw [Network.run_skip]
    exact h
  | replyYes => exact h.run_deletePendingRequest _
  | @replyLast rid c r index p id hid hfind hp =>
    simp only [execute, Network.run_andThen]
    refine ((traced_carries dst n.sent).serverDo [] _ _ _ ?_
      ⟨(h.run_countNo hp).run_exec _ _ _, rfl⟩).1.run_deletePendingRequest _
    rintro CVID lockID rfl
    obtain ⟨q, hq, -, -, hkey⟩ := findPending_some hfind
    cases hp.symm.trans hq
    have htraced := h.pending dst p (List.mem_of_getElem? hp)
    cases hr : p.r with
    | wait CVID' lockID' => exact htraced CVID' lockID' hr
    | _ =>
      rw [hr] at hkey
      cases hkey
  | replyNo hid hfind hp | createReplyNo hid hread hfind hp => exact h.run_countNo hp
  | createReplyYes =>
    rw [Network.run_andThen]
    exact (h.run_deletePendingRequest _).run_dropNamed _
  | createReplyLast hid hread hfind hp =>
    simp only [Network.run_andThen, run_createNamed]
    exact ((((h.run_countNo hp).run_serverDoCreate _ _).run_deletePendingRequest _).run_createAll
      _).run_dropNamed _

theorem Waiter.mono {sent sent' : List (Sender × Request)} {x : Sender} (h : Waiter sent x)
    (hsub : ∀ e ∈ sent, e ∈ sent') : Waiter sent' x := by
  obtain ⟨CVID, lockID, hmem⟩ := h
  exact ⟨CVID, lockID, hsub _ hmem⟩

theorem TracedMail.mono {sent sent' : List (Sender × Request)} {m : Mail}
    (h : TracedMail sent m) (hsub : ∀ e ∈ sent, e ∈ sent') : TracedMail sent' m := by
  obtain ⟨src, dst, body⟩ := m
  cases body with
  | client c r => exact hsub _ h
  | request rid c r => exact fun CVID lockID hr => (h CVID lockID hr).mono hsub
  | reply rid c r response => exact fun CVID lockID hr => (h CVID lockID hr).mono hsub
  | answer c a => trivial

/-- **Every step keeps the trace.** -/
theorem traced_step {n n' : Network} {op : Op} (h : Traced n) (hstep : NetStep n op n') :
    Traced n' := by
  cases netStep_spec hstep with
  | @send machine mailbox dst r hmachine hdst =>
    have hsub : ∀ e ∈ n.sent, e ∈ n.sent ++ [((⟨machine, mailbox, n.nextTag⟩ : Sender), r)] :=
      fun e he => List.mem_append_left _ he
    refine ⟨fun e he => ?_, ?_, fun m hm => ?_, fun j p hp CVID lockID hr => ?_,
      fun j x hx => (h.waiting j x hx).mono hsub, fun j c r' ho => ?_⟩
    · rcases List.mem_append.mp he with he | he
      · exact Nat.lt_succ_of_lt (h.tag_lt e he)
      · rw [List.mem_singleton.mp he]
        exact Nat.lt_succ_self _
    · rw [List.map_append]
      refine List.nodup_append.mpr ⟨h.distinct, by simp, fun a ha b hb => ?_⟩
      obtain ⟨e, he, rfl⟩ := List.mem_map.mp ha
      rw [List.map_singleton, List.mem_singleton] at hb
      rw [hb]
      exact Nat.ne_of_lt (h.tag_lt e he)
    · rcases List.mem_append.mp hm with hm | hm
      · exact (h.mails m hm).mono hsub
      · rw [List.mem_singleton.mp hm]
        exact List.mem_append_right _ (List.mem_singleton.mpr rfl)
    · exact (h.pending j p hp CVID lockID hr).mono hsub
    · obtain ⟨hr, hc⟩ := h.nested j c r' ho
      exact ⟨hr, hc.mono hsub⟩
  | @deliver _ m _ hmails hdst =>
    exact (h.withMails fun _ hm' => hmails ▸ mem_of_mem_remove hm').receive
      (h.mails m (by simp [hmails]))
  | take hmails => exact h.withMails fun _ hm' => hmails ▸ mem_of_mem_remove hm'

/-- Two requests with the same client number are the same. -/
theorem Traced.sent_unique {n : Network} (h : Traced n) {c : Sender} {r r' : Request}
    (hr : (c, r) ∈ n.sent) (hr' : (c, r') ∈ n.sent) : r = r' := by
  exact congrArg Prod.snd (List.inj_on_of_nodup_map h.distinct hr hr' rfl)

/-- A request of a client is made once: servers start requests only for clients that wait. -/
theorem Traced.requested_eq_one {n : Network} (h : Traced n) {c : Sender} {r : Request}
    (hr : (c, r) ∈ n.sent) : n.requested c r = 1 := by
  have hsent : n.sent.Nodup := List.Nodup.of_map _ h.distinct
  have hnested : (n.log.countP fun e => e.2.isNested c r) = 0 := by
    refine List.countP_eq_zero.mpr fun e he hnest => ?_
    obtain ⟨j, o⟩ := e
    cases o with
    | nested c' r' =>
      obtain ⟨rfl, rfl⟩ : c' = c ∧ r' = r := of_decide_eq_true hnest
      obtain ⟨hnestable, CVID, lockID, hwait⟩ := h.nested j c' r' he
      rw [h.sent_unique hr hwait] at hnestable
      cases hnestable
    | mail | exec | enter | leave | crash => cases hnest
  rw [Network.requested, hnested, hsent.count, if_pos hr]

/-- No mail is on its way to a server, so no server has a step to make. -/
def Settled (n : Network) : Prop := ∀ m ∈ n.mails, m.dst ∉ n.awake

theorem settled_brings {n : Network} (hn : Numbered n) (hsettled : Settled n) (o : Nat)
    (c : Sender) (r : Request) : n.mails.countP (Mail.brings o c r) = 0 := by
  refine List.countP_eq_zero.mpr fun m hm hbrings => hsettled m hm ?_
  have hok := hn.mails m hm
  obtain ⟨src, dst, body⟩ := m
  cases body with
  | client c' r' => exact hok
  | request rid c' r' => exact hok.asked_awake
  | reply | answer => cases hbrings

/-- What holds in every reachable state, whatever the order of the mails. -/
theorem reachable_forwarded {up : Nat → Bool} {n : Network}
    (h : Lib.Reachable NetStep (.init up) n) : Numbered n ∧ Forwarded [] n ∧ Traced n :=
  h.invariant (I := fun n => Numbered n ∧ Forwarded [] n ∧ Traced n)
    ⟨numbered_init up, forwarded_init up, traced_init up⟩ fun _ _ _ hI hstep =>
    ⟨numbered_step hI.1 hstep, forwarded_step hI.1 hI.2.1 hstep, traced_step hI.2.2 hstep⟩

/-- **Exactly-once forwarding.** A request with an id of an awake server is run only there,
at the slot of the id and for the client that made it; as often as it was made, but for
what is on its way to the owner; and once when a client made it and no mail is left. The
entry at the server that was asked lasts only as long as the owner's answer is missing. -/
theorem forwarding_exactly_once {up : Nat → Bool} {n : Network}
    (h : Lib.Reachable NetStep (.init up) n) {c : Sender} {r : Request} {id : Nat}
    (hid : r.id = some id) (hawake : owner id ∈ n.awake) :
    (∀ j index, (j, Out.exec index c r) ∈ n.log → j = owner id ∧ index = some (id % 100)) ∧
      n.executed c r + n.mails.countP (Mail.brings (owner id) c r) = n.requested c r ∧
      ((c, r) ∈ n.sent → n.executed c r ≤ 1 ∧ (Settled n → n.executed c r = 1)) ∧
      ∀ j, ∀ p ∈ (n.server j).pendingRequests, p.c = c → p.r = r →
        ⟨j, owner id, .request p.requestID c r⟩ ∈ n.mails ∨
          ⟨owner id, j, .reply p.requestID c r true⟩ ∈ n.mails := by
  obtain ⟨hn, hforwarded, htraced⟩ := reachable_forwarded h
  have hcount := hforwarded.count c r id hid hawake
  rw [List.count_nil, Nat.add_zero] at hcount
  refine ⟨fun j index ho => hforwarded.place j index c r id ho hid hawake, by omega,
    fun hsent => ?_, ?_⟩
  · have hone := htraced.requested_eq_one hsent
    refine ⟨by omega, fun hsettled => ?_⟩
    have hzero := settled_brings hn hsettled (owner id) c r
    omega
  · rintro j p hp rfl rfl
    exact hforwarded.alive j p hp id hid hawake

end Nachos.Net

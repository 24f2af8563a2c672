import Nachos.Net.Numbering

/-!
# Exactly-once forwarding

A request with an id of an awake server is run once, there, whichever server the client
asked and in whatever order the mails are delivered. The count of what was requested, what
is on its way to the owner and what has been run is an invariant (`Forwarded.count`). That
the asking server never runs the request itself follows from a bound on its NOs: the owner
never says NO, so a pending request always has one NO fewer than it needs
(`Forwarded.missing`).
-/

namespace Nachos.Net

/-- A mail that has led or will lead to a NO for the pending request `requestID` of `asker`,
when `o` is the owner. -/
def Mail.against (asker requestID o : Nat) (m : Mail) : Bool :=
  match m.body with
  | .request rid _ _ => decide (m.src = asker) && decide (rid = requestID) && decide (m.dst ≠ o)
  | .reply rid _ _ response => decide (m.dst = asker) && decide (rid = requestID) && !response
  | _ => false

/-- A mail that brings a request to a server that will run it or send it on: from the client,
or to its owner `o`. -/
def Mail.brings (o : Nat) (c : Sender) (r : Request) (m : Mail) : Bool :=
  match m.body with
  | .client c' r' => decide (c' = c ∧ r' = r)
  | .request _ c' r' => decide (m.dst = o) && decide (c' = c ∧ r' = r)
  | _ => false

/-- A run of the request. -/
def Out.isExec (c : Sender) (r : Request) : Out → Bool
  | .exec _ c' r' => decide (c' = c ∧ r' = r)
  | _ => false

/-- The start of the request for a waiting client. -/
def Out.isNested (c : Sender) (r : Request) : Out → Bool
  | .nested c' r' => decide (c' = c ∧ r' = r)
  | _ => false

namespace Network

/-- How often the request was made, by the client or on its behalf. -/
def requested (n : Network) (c : Sender) (r : Request) : Nat :=
  n.sent.count (c, r) + n.log.countP fun e => e.2.isNested c r

/-- How often the request was run, over all servers. -/
def executed (n : Network) (c : Sender) (r : Request) : Nat :=
  n.log.countP fun e => e.2.isExec c r

end Network

/-- The bookkeeping behind exactly-once forwarding; the requests in `owed` have been taken
up but not yet run or sent on. -/
structure Forwarded (owed : List (Sender × Request)) (n : Network) : Prop where
  /-- A pending request has one NO fewer than it needs, counting those on their way. -/
  missing : ∀ j, ∀ p ∈ (n.server j).pendingRequests, ∀ id, p.r.id = some id →
    owner id ∈ n.awake →
    (p.noCount + n.mails.countP (Mail.against j p.requestID (owner id)) + 1 : Int) ≤ p.sentCount
  /-- Its owner has still to be asked, or its YES is on its way. -/
  alive : ∀ j, ∀ p ∈ (n.server j).pendingRequests, ∀ id, p.r.id = some id →
    owner id ∈ n.awake →
    ⟨j, owner id, .request p.requestID p.c p.r⟩ ∈ n.mails ∨
      ⟨owner id, j, .reply p.requestID p.c p.r true⟩ ∈ n.mails
  count : ∀ c r id, r.id = some id → owner id ∈ n.awake →
    n.requested c r =
      n.mails.countP (Mail.brings (owner id) c r) + n.executed c r + owed.count (c, r)
  place : ∀ j index c r id, (j, Out.exec index c r) ∈ n.log → r.id = some id →
    owner id ∈ n.awake → j = owner id ∧ index = some (id % 100)

theorem forwarded_init (up : Nat → Bool) : Forwarded [] (.init up) where
  missing _ p hp := by cases hp
  alive _ p hp := by cases hp
  count _ _ _ _ _ := rfl
  place _ _ _ _ _ h := by cases h

namespace Forwarded

variable {n : Network} {i : Nat} {owed owed' : List (Sender × Request)} {c : Sender} {r : Request}

/-- Code that keeps the pending requests with an awake owner and sends only answers. -/
theorem run {f : Act} (h : Forwarded owed n)
    (hpending : ∀ p ∈ (f (n.server i)).1.pendingRequests, ∀ id, p.r.id = some id →
      owner id ∈ n.awake → p ∈ (n.server i).pendingRequests)
    (hmails : ∀ m ∈ mailsOf i (f (n.server i)).2, ∃ c a, m.body = .answer c a)
    (hcount : ∀ c r id, r.id = some id → owner id ∈ n.awake →
      (f (n.server i)).2.countP (Out.isNested c r) + owed.count (c, r) =
        (f (n.server i)).2.countP (Out.isExec c r) + owed'.count (c, r))
    (hplace : ∀ index c r id, Out.exec index c r ∈ (f (n.server i)).2 → r.id = some id →
      owner id ∈ n.awake → i = owner id ∧ index = some (id % 100)) :
    Forwarded owed' (n.run i f) := by
  have hsame : ∀ j, ∀ p ∈ ((n.run i f).server j).pendingRequests, ∀ id, p.r.id = some id →
      owner id ∈ n.awake → p ∈ (n.server j).pendingRequests := by
    intro j p hp id hid hawake
    by_cases hj : j = i
    · subst hj
      rw [Network.run_server_self] at hp
      exact hpending p hp id hid hawake
    · rwa [Network.run_server_of_ne _ _ _ hj] at hp
  have hzero : ∀ P : Mail → Bool, (∀ m c a, m.body = .answer c a → P m = false) →
      (n.run i f).mails.countP P = n.mails.countP P := by
    intro P hP
    have hnew : (mailsOf i (f (n.server i)).2).countP P = 0 := by
      refine List.countP_eq_zero.mpr fun m hm => ?_
      obtain ⟨c, a, hbody⟩ := hmails m hm
      simp [hP m c a hbody]
    rw [Network.run_mails, List.countP_append, hnew, Nat.add_zero]
  refine ⟨?_, ?_, ?_, ?_⟩
  · intro j p hp id hid hawake
    rw [hzero _ fun m c a hbody => by simp [Mail.against, hbody]]
    exact h.missing j p (hsame j p hp id hid hawake) id hid hawake
  · intro j p hp id hid hawake
    exact (h.alive j p (hsame j p hp id hid hawake) id hid hawake).imp
      (List.mem_append_left _) (List.mem_append_left _)
  · intro c r id hid hawake
    have hold := h.count c r id hid hawake
    have hnew := hcount c r id hid hawake
    rw [hzero _ fun m c a hbody => by simp [Mail.brings, hbody]]
    simp only [Network.requested, Network.executed, Network.run_log, List.countP_append,
      List.countP_map, Network.run_sent] at hold ⊢
    have hnest : (fun e : Nat × Out => e.2.isNested c r) ∘ (i, ·) = Out.isNested c r := rfl
    have hexec : (fun e : Nat × Out => e.2.isExec c r) ∘ (i, ·) = Out.isExec c r := rfl
    rw [hnest, hexec]
    omega
  · intro j index c r id hlog hid hawake
    rcases List.mem_append.mp hlog with hlog | hlog
    · exact h.place j index c r id hlog hid hawake
    · obtain ⟨o, ho, heq⟩ := List.mem_map.mp hlog
      cases heq
      exact hplace index c r id ho hid hawake

/-- A mail is taken off the network. -/
theorem remove {l₁ l₂ : List Mail} {m : Mail} (h : Forwarded owed n)
    (hmails : n.mails = l₁ ++ m :: l₂)
    (halive : ∀ j, ∀ p ∈ (n.server j).pendingRequests, ∀ id, p.r.id = some id →
      owner id ∈ n.awake → m ≠ ⟨j, owner id, .request p.requestID p.c p.r⟩ ∧
        m ≠ ⟨owner id, j, .reply p.requestID p.c p.r true⟩)
    (hcount : ∀ c r id, r.id = some id → owner id ∈ n.awake →
      (if m.brings (owner id) c r then 1 else 0) + owed.count (c, r) = owed'.count (c, r)) :
    Forwarded owed' (n.withMails (l₁ ++ l₂)) := by
  have hsplit : ∀ P : Mail → Bool,
      n.mails.countP P = (l₁ ++ l₂).countP P + if P m then 1 else 0 := by
    intro P
    rw [hmails, List.countP_append, List.countP_append, List.countP_cons, Nat.add_assoc]
  have hmem : ∀ m', m' ∈ n.mails → m ≠ m' → m' ∈ l₁ ++ l₂ := by
    intro m' hm' hne
    rw [hmails] at hm'
    simp only [List.mem_append, List.mem_cons] at hm' ⊢
    rcases hm' with hm' | hm' | hm'
    · exact .inl hm'
    · exact absurd hm'.symm hne
    · exact .inr hm'
  refine ⟨?_, ?_, ?_, h.place⟩
  · intro j p hp id hid hawake
    have hold := h.missing j p hp id hid hawake
    have := hsplit (Mail.against j p.requestID (owner id))
    simp only [Network.withMails_mails] at hold ⊢
    omega
  · intro j p hp id hid hawake
    obtain ⟨hne₁, hne₂⟩ := halive j p hp id hid hawake
    exact (h.alive j p hp id hid hawake).imp (hmem _ · hne₁) (hmem _ · hne₂)
  · intro c r id hid hawake
    have hold := h.count c r id hid hawake
    have hnew := hcount c r id hid hawake
    rw [hsplit] at hold
    simp only [Network.requested, Network.executed, Network.withMails_mails,
      Network.withMails_sent, Network.withMails_log] at hold ⊢
    omega

theorem run_quiet {A : Sender → Prop} {f : Act} (h : Forwarded owed n)
    (hf : Quiet A (n.server i) (f (n.server i)).2 (f (n.server i)).1) :
    Forwarded owed (n.run i f) := by
  have hcount : ∀ P : Out → Bool, (∀ o, o.plain → P o = false) →
      (f (n.server i)).2.countP P = 0 := fun P hP =>
    List.countP_eq_zero.mpr fun o ho => by simp [hP o (hf.plain o ho)]
  refine h.run (fun p hp _ _ _ => hf.pending ▸ hp) (fun m hm => ?_) (fun c r _ _ _ => ?_)
    fun index c r id ho => (hf.plain _ ho).elim
  · have hplain := hf.plain _ (mem_mailsOf hm).2
    obtain ⟨src, dst, body⟩ := m
    cases body with
    | answer c a => exact ⟨c, a, rfl⟩
    | client | request | reply => exact hplain.elim
  · rw [hcount, hcount]
    · rintro ⟨⟩ ho <;> first | rfl | exact ho.elim
    · rintro ⟨⟩ ho <;> first | rfl | exact ho.elim

theorem run_nested (h : Forwarded owed n) (c : Sender) (r : Request) :
    Forwarded ((c, r) :: owed) (n.run i (.emit (.nested c r))) := by
  refine h.run (fun p hp _ _ _ => hp) (by simp) (fun c' r' _ _ _ => ?_) (by simp)
  by_cases heq : (c, r) = (c', r')
  · cases heq
    simp [Out.isNested, Out.isExec, Nat.add_comm]
  · have hne : ¬ (c = c' ∧ r = r') := by simpa using heq
    simp [Out.isNested, Out.isExec, List.count_cons_of_ne heq, hne]

/-- The owner runs a request it has taken up. -/
theorem run_mine (h : Forwarded ((c, r) :: owed) n) {id : Nat} (hid : r.id = some id)
    (howner : owner id = i) :
    Forwarded owed (n.run i (.emit (.exec (some (id % 100)) c r))) := by
  refine h.run (fun p hp _ _ _ => hp) (by simp) (fun c' r' _ _ _ => ?_) ?_
  · by_cases heq : (c, r) = (c', r')
    · cases heq
      simp [Out.isNested, Out.isExec, Nat.add_comm]
    · have hne : ¬ (c = c' ∧ r = r') := by simpa using heq
      simp [Out.isNested, Out.isExec, List.count_cons_of_ne heq, hne]
  · intro index c' r' id' ho hid' _
    cases List.mem_singleton.mp ho
    cases hid.symm.trans hid'
    exact ⟨howner.symm, rfl⟩

/-- A run of a request without an awake owner is not counted. -/
theorem run_exec (h : Forwarded owed n) (index : Option Nat) (c : Sender) {r : Request}
    (hr : ∀ id, r.id = some id → owner id ∉ n.awake) :
    Forwarded owed (n.run i (.emit (.exec index c r))) := by
  refine h.run (fun p hp _ _ _ => hp) (by simp) (fun c' r' id hid hawake => ?_) ?_
  · have hne : ¬ (c = c' ∧ r = r') := by
      rintro ⟨rfl, rfl⟩
      exact hr id hid hawake
    simp [Out.isNested, Out.isExec, hne]
  · intro index' c' r' id' ho hid' hawake
    cases List.mem_singleton.mp ho
    exact absurd hawake (hr id' hid')

/-- A request without an awake owner is not owed. -/
theorem forget (h : Forwarded ((c, r) :: owed) n)
    (hr : ∀ id, r.id = some id → owner id ∉ n.awake) : Forwarded owed n := by
  refine ⟨h.missing, h.alive, fun c' r' id hid hawake => ?_, h.place⟩
  have hne : ¬ (c, r) = (c', r') := by
    intro heq
    cases heq
    exact hr id hid hawake
  rw [h.count c' r' id hid hawake, List.count_cons_of_ne hne]

/-- Code that only changes pending requests without an awake owner. -/
theorem run_update {f : Act} (h : Forwarded owed n)
    (hpending : ∀ p ∈ (f (n.server i)).1.pendingRequests, ∀ id, p.r.id = some id →
      owner id ∈ n.awake → p ∈ (n.server i).pendingRequests)
    (hout : (f (n.server i)).2 = []) : Forwarded owed (n.run i f) :=
  h.run hpending (by simp [hout]) (by simp [hout]) (by simp [hout])

/-- No mail is about a number that was not used yet. -/
theorem against_unused (hn : Numbered n) (j o : Nat) :
    n.mails.countP (Mail.against j (n.server j).pendingRequestCount o) = 0 := by
  refine List.countP_eq_zero.mpr fun m hm => ?_
  have hok := hn.mails m hm
  obtain ⟨src, dst, body⟩ := m
  cases body with
  | client | answer => simp [Mail.against]
  | request rid c r =>
    have hlt := hok.lt
    rintro hagainst
    simp only [Mail.against, Bool.and_eq_true, decide_eq_true_eq] at hagainst
    obtain ⟨⟨rfl, rfl⟩, -⟩ := hagainst
    exact Nat.lt_irrefl _ hlt
  | reply rid c r response =>
    have hlt := hok.lt
    rintro hagainst
    simp only [Mail.against, Bool.and_eq_true, decide_eq_true_eq] at hagainst
    obtain ⟨⟨rfl, rfl⟩, -⟩ := hagainst
    exact Nat.lt_irrefl _ hlt

/-- A request of another owner is sent to the others. -/
theorem run_askOthers (hn : Numbered n) (h : Forwarded ((c, r) :: owed) n)
    (hr : ∀ id, r.id = some id → owner id ≠ i) : Forwarded owed (n.run i (askOthers c r)) := by
  have hmails : (n.run i (askOthers c r)).mails = n.mails ++ (n.server i).others.map
      fun dst => ⟨i, dst, .request (n.server i).pendingRequestCount c r⟩ := by
    rw [Network.run_mails, askOthers, mailsOf_map]
  have hlog : (n.run i (askOthers c r)).log = n.log ++ ((n.server i).others.map fun dst =>
      (i, Out.mail dst (.request (n.server i).pendingRequestCount c r))) := by
    rw [Network.run_log, askOthers, List.map_map]
    rfl
  have hold : ∀ j, ∀ p ∈ (n.server j).pendingRequests, ∀ o,
      (n.run i (askOthers c r)).mails.countP (Mail.against j p.requestID o) =
        n.mails.countP (Mail.against j p.requestID o) := by
    intro j p hp o
    rw [hmails, List.countP_append, Nat.add_eq_left, List.countP_eq_zero]
    intro m hm
    obtain ⟨d, -, rfl⟩ := List.mem_map.mp hm
    have hlt := hn.lt j p hp
    simp only [Mail.against, Bool.and_eq_true, decide_eq_true_eq]
    rintro ⟨⟨rfl, heq⟩, -⟩
    omega
  refine ⟨?_, ?_, ?_, ?_⟩
  · intro j p hp id hid hawake
    by_cases hj : j = i
    · subst hj
      rw [Network.run_server_self] at hp
      rcases List.mem_append.mp hp with hp | hp
      · rw [hold j p hp]
        exact h.missing j p hp id hid hawake
      · rw [List.mem_singleton.mp hp] at hid ⊢
        have howner : owner id ∈ (n.server j).others := hn.mem_others.mpr ⟨hawake, hr id hid⟩
        have hlt : (n.server j).others.countP (fun d => decide (d ≠ owner id)) <
            (n.server j).others.length := by
          refine Nat.lt_of_le_of_ne List.countP_le_length fun heq => ?_
          simpa using List.countP_eq_length.mp heq _ howner
        have hnew : ((n.server j).others.map fun dst =>
            (⟨j, dst, .request (n.server j).pendingRequestCount c r⟩ : Mail)).countP
              (Mail.against j (n.server j).pendingRequestCount (owner id)) =
            (n.server j).others.countP fun d => decide (d ≠ owner id) := by
          rw [List.countP_map]
          congr 1
          funext d
          simp [Mail.against]
        dsimp only
        rw [hmails, List.countP_append, against_unused hn, hnew]
        omega
    · rw [Network.run_server_of_ne _ _ _ hj] at hp
      rw [hold j p hp]
      exact h.missing j p hp id hid hawake
  · intro j p hp id hid hawake
    rw [hmails]
    by_cases hj : j = i
    · subst hj
      rw [Network.run_server_self] at hp
      rcases List.mem_append.mp hp with hp | hp
      · exact (h.alive j p hp id hid hawake).imp (List.mem_append_left _) (List.mem_append_left _)
      · rw [List.mem_singleton.mp hp] at hid ⊢
        exact .inl (List.mem_append_right _ (List.mem_map_of_mem
          (hn.mem_others.mpr ⟨hawake, hr id hid⟩)))
    · rw [Network.run_server_of_ne _ _ _ hj] at hp
      exact (h.alive j p hp id hid hawake).imp (List.mem_append_left _) (List.mem_append_left _)
  · intro c' r' id hid hawake
    have hcount := h.count c' r' id hid hawake
    have hnone : ∀ P : Nat × Out → Bool, (∀ d body, P (i, .mail d body) = false) →
        (n.run i (askOthers c r)).log.countP P = n.log.countP P := by
      intro P hP
      rw [hlog, List.countP_append, Nat.add_eq_left, List.countP_eq_zero]
      intro e he
      obtain ⟨d, -, rfl⟩ := List.mem_map.mp he
      simp [hP]
    simp only [Network.requested, Network.executed] at hcount ⊢
    rw [hnone _ fun _ _ => rfl, hnone _ fun _ _ => rfl, Network.run_sent, hcount, hmails,
      List.countP_append, List.countP_map]
    -- the one new mail that brings the request is the one to its owner
    by_cases heq : (c, r) = (c', r')
    · cases heq
      have hone : (n.server i).others.countP (Mail.brings (owner id) c r ∘ fun dst =>
          ⟨i, dst, .request (n.server i).pendingRequestCount c r⟩) = 1 := by
        have hfun : (Mail.brings (owner id) c r ∘ fun dst =>
            (⟨i, dst, .request (n.server i).pendingRequestCount c r⟩ : Mail)) =
              fun d => d == owner id := by
          funext d
          simp [Mail.brings, beq_eq_decide]
        have hnodup : (n.server i).others.Nodup := by
          rw [hn.others]
          exact hn.awake.filter _
        rw [hfun]
        exact hnodup.count.trans (if_pos (hn.mem_others.mpr ⟨hawake, hr id hid⟩))
      rw [hone, List.count_cons_self]
      omega
    · have hne : ¬ (c = c' ∧ r = r') := by simpa using heq
      have hzero : (n.server i).others.countP (Mail.brings (owner id) c' r' ∘ fun dst =>
          ⟨i, dst, .request (n.server i).pendingRequestCount c r⟩) = 0 := by
        refine List.countP_eq_zero.mpr fun d _ => ?_
        simp [Mail.brings, hne]
      rw [hzero, List.count_cons_of_ne heq, Nat.add_zero]
  · intro j index c' r' id ho hid hawake
    rw [hlog] at ho
    rcases List.mem_append.mp ho with ho | ho
    · exact h.place j index c' r' id ho hid hawake
    · obtain ⟨d, -, heq⟩ := List.mem_map.mp ho
      cases heq

/-- A request without an awake owner may be owed. -/
theorem owe (h : Forwarded owed n) (hr : ∀ id, r.id = some id → owner id ∉ n.awake) :
    Forwarded ((c, r) :: owed) n := by
  refine ⟨h.missing, h.alive, fun c' r' id hid hawake => ?_, h.place⟩
  have hne : ¬ (c, r) = (c', r') := by
    intro heq
    cases heq
    exact hr id hid hawake
  rw [h.count c' r' id hid hawake, List.count_cons_of_ne hne]

/-! ## Requests and replies between servers -/

section Between

variable {src rid : Nat} {l₁ l₂ : List Mail}

/-- A request is answered with a YES exactly by the owner, which then owes the run. -/
theorem run_sendReply (hn : Numbered n) (h : Forwarded owed n) (response : Bool)
    (hmails : n.mails = l₁ ++ ⟨src, i, .request rid c r⟩ :: l₂)
    (hresponse : ∀ id, r.id = some id → (response = true ↔ owner id = i)) :
    Forwarded (if response then (c, r) :: owed else owed)
      ((n.withMails (l₁ ++ l₂)).run i (sendReply src rid c r response)) := by
  have hmem : ⟨src, i, .request rid c r⟩ ∈ n.mails := by simp [hmails]
  have hok : Asked n src i rid c r := hn.mails _ hmem
  have hmails' : ((n.withMails (l₁ ++ l₂)).run i (sendReply src rid c r response)).mails =
      l₁ ++ l₂ ++ [⟨i, src, .reply rid c r response⟩] := rfl
  have hserver : ∀ j, (((n.withMails (l₁ ++ l₂)).run i
      (sendReply src rid c r response)).server j).pendingRequests =
        (n.server j).pendingRequests := by
    intro j
    by_cases hj : j = i
    · subst hj
      rw [Network.run_server_self]
      rfl
    · rw [Network.run_server_of_ne _ _ _ hj]
      rfl
  have hlog : ∀ P : Nat × Out → Bool, (∀ d body, P (i, .mail d body) = false) →
      ((n.withMails (l₁ ++ l₂)).run i (sendReply src rid c r response)).log.countP P =
        n.log.countP P := by
    intro P hP
    have hnew : ((n.withMails (l₁ ++ l₂)).run i (sendReply src rid c r response)).log =
        n.log ++ [(i, .mail src (.reply rid c r response))] := rfl
    rw [hnew, List.countP_append, List.countP_singleton, hP]
    rfl
  refine ⟨?_, ?_, ?_, ?_⟩
  · intro j p hp id hid hawake
    rw [hserver] at hp
    have hold := h.missing j p hp id hid hawake
    -- the reply counts against the request only when the question did
    have hle : Mail.against j p.requestID (owner id) ⟨i, src, .reply rid c r response⟩ = true →
        Mail.against j p.requestID (owner id) ⟨src, i, .request rid c r⟩ = true := by
      simp only [Mail.against, Bool.and_eq_true, decide_eq_true_eq, Bool.not_eq_true']
      rintro ⟨⟨rfl, rfl⟩, hno⟩
      refine ⟨⟨rfl, rfl⟩, fun howner => ?_⟩
      have hr : p.r = r := (hok.agree p hp rfl).2
      rw [(hresponse id (hr ▸ hid)).mpr howner.symm] at hno
      cases hno
    rw [hmails, List.countP_append, List.countP_cons] at hold
    rw [hmails', List.countP_append, List.countP_append, List.countP_singleton]
    by_cases hagainst : Mail.against j p.requestID (owner id) ⟨i, src, .reply rid c r response⟩ = true
    · rw [if_pos hagainst]
      rw [if_pos (hle hagainst)] at hold
      omega
    · rw [if_neg hagainst]
      omega
  · intro j p hp id hid hawake
    rw [hserver] at hp
    rw [hmails']
    have hkeep : ∀ m, m ∈ n.mails → m ≠ ⟨src, i, .request rid c r⟩ →
        m ∈ l₁ ++ l₂ ++ [⟨i, src, .reply rid c r response⟩] := by
      intro m hm hne
      rw [hmails] at hm
      simp only [List.mem_append, List.mem_cons] at hm ⊢
      rcases hm with hm | hm | hm
      · exact .inl (.inl hm)
      · exact absurd hm hne
      · exact .inl (.inr hm)
    rcases h.alive j p hp id hid hawake with hm | hm
    · by_cases heq : (⟨j, owner id, .request p.requestID p.c p.r⟩ : Mail) =
          ⟨src, i, .request rid c r⟩
      · simp only [Mail.mk.injEq, Body.request.injEq] at heq
        obtain ⟨rfl, rfl, rfl, rfl, rfl⟩ := heq
        have hyes := (hresponse id hid).mpr rfl
        subst hyes
        exact .inr (List.mem_append_right _ (List.mem_singleton.mpr rfl))
      · exact .inl (hkeep _ hm heq)
    · exact .inr (hkeep _ hm (by simp))
  · intro c' r' id hid hawake
    have hcount := h.count c' r' id hid hawake
    simp only [Network.requested, Network.executed] at hcount ⊢
    have hreply : (⟨i, src, .reply rid c r response⟩ : Mail).brings (owner id) c' r' = false := rfl
    have hrequest : (⟨src, i, .request rid c r⟩ : Mail).brings (owner id) c' r' =
        (decide (i = owner id) && decide (c = c' ∧ r = r')) := rfl
    rw [hlog _ fun _ _ => rfl, hlog _ fun _ _ => rfl, Network.run_sent, Network.withMails_sent,
      hcount, hmails, hmails', List.countP_append, List.countP_append, List.countP_append,
      List.countP_cons, List.countP_singleton, hreply, hrequest]
    by_cases heq : (c, r) = (c', r')
    · cases heq
      cases response with
      | true =>
        have howner := (hresponse id hid).mp rfl
        simp [howner]
        omega
      | false =>
        have howner : i ≠ owner id := fun heq => by simpa using (hresponse id hid).mpr heq.symm
        simp [howner]
    · have hne : ¬ (c = c' ∧ r = r') := by simpa using heq
      cases response with
      | true => simp [hne, List.count_cons_of_ne heq]
      | false => simp [hne]
  · intro j index c' r' id ho hid hawake
    rcases List.mem_append.mp ho with ho | ho
    · exact h.place j index c' r' id ho hid hawake
    · cases List.mem_singleton.mp ho

/-- A NO is counted, and is no longer on its way. -/
theorem run_countNo (h : Forwarded owed n) {index : Nat} {p : PendingRequest}
    (hmails : n.mails = l₁ ++ ⟨src, i, .reply rid c r false⟩ :: l₂)
    (hp : (n.server i).pendingRequests[index]? = some p) (hrid : p.requestID = rid) :
    Forwarded owed ((n.withMails (l₁ ++ l₂)).run i (.update (countNo index p))) := by
  rw [Network.run_withMails _ _ _ _ rfl]
  have hremoved : Forwarded owed (n.withMails (l₁ ++ l₂)) :=
    h.remove hmails (by simp) (by simp [Mail.brings])
  have hserver : ∀ j, ∀ q ∈ (((n.run i (.update (countNo index p))).withMails
      (l₁ ++ l₂)).server j).pendingRequests, q ∈ (n.server j).pendingRequests ∨
        j = i ∧ q = { p with noCount := p.noCount + 1 } := by
    intro j q hq
    by_cases hj : j = i
    · subst hj
      rw [Network.withMails_server, Network.run_server_self] at hq
      exact (List.mem_or_eq_of_mem_set hq).imp_right fun h => ⟨rfl, h⟩
    · rw [Network.withMails_server, Network.run_server_of_ne _ _ _ hj] at hq
      exact .inl hq
  have hlog : ((n.run i (.update (countNo index p))).withMails (l₁ ++ l₂)).log = n.log := by
    simp [Network.run_log]
  refine ⟨?_, ?_, ?_, ?_⟩
  · intro j q hq id hid hawake
    rcases hserver j q hq with hq | ⟨rfl, rfl⟩
    · exact hremoved.missing j q hq id hid hawake
    · have hold := h.missing j p (List.mem_of_getElem? hp) id hid hawake
      have hagainst : Mail.against j p.requestID (owner id) ⟨src, j, .reply rid c r false⟩ =
          true := by
        simp [Mail.against, hrid]
      rw [hmails, List.countP_append, List.countP_cons, if_pos hagainst] at hold
      rw [Network.withMails_mails, List.countP_append]
      push_cast
      omega
  · intro j q hq id hid hawake
    rcases hserver j q hq with hq | ⟨rfl, rfl⟩
    · exact hremoved.alive j q hq id hid hawake
    · exact hremoved.alive j p (List.mem_of_getElem? hp) id hid hawake
  · intro c' r' id hid hawake
    have hcount := hremoved.count c' r' id hid hawake
    simp only [Network.requested, Network.executed, hlog] at hcount ⊢
    exact hcount
  · intro j index' c' r' id ho
    rw [hlog] at ho
    exact h.place j index' c' r' id ho

/-- A YES deletes the request, and no other entry has its number. -/
theorem run_deletePendingRequest (hn : Numbered n) (h : Forwarded owed n) {index : Nat}
    {p : PendingRequest} (hmails : n.mails = l₁ ++ ⟨src, i, .reply rid c r true⟩ :: l₂)
    (hp : (n.server i).pendingRequests[index]? = some p) (hrid : p.requestID = rid) :
    Forwarded owed ((n.withMails (l₁ ++ l₂)).run i (deletePendingRequest index)) := by
  rw [Network.run_withMails _ _ _ _ rfl]
  have hdeleted : Forwarded owed (n.run i (deletePendingRequest index)) :=
    h.run_update (fun q hq _ _ _ => List.mem_of_mem_eraseIdx hq) rfl
  have hmails' : (n.run i (deletePendingRequest index)).mails =
      l₁ ++ ⟨src, i, .reply rid c r true⟩ :: l₂ := by
    rw [Network.run_mails, hmails]
    exact List.append_nil _
  refine hdeleted.remove hmails' ?_ (by simp [Mail.brings])
  intro j q hq id hid hawake
  refine ⟨by simp, fun heq => ?_⟩
  simp only [Mail.mk.injEq, Body.reply.injEq] at heq
  obtain ⟨-, rfl, rfl, -⟩ := heq
  rw [Network.run_server_self] at hq
  exact absurd hrid.symm (ne_of_mem_eraseIdx (hn.distinct i) hp hq)

end Between

end Forwarded

theorem forwarded_carries (i : Nat) :
    Carries i (fun _ => True) fun owed n => Numbered n ∧ i ∈ n.awake ∧ Forwarded owed n where
  waiting _ _ _ _ _ := trivial
  quiet _ _ _ hf h := ⟨h.1.run_quiet hf, h.2.1, h.2.2.run_quiet hf⟩
  nested _ _ c r _ _ h := ⟨h.1.run_nested c r, h.2.1, h.2.2.run_nested c r⟩
  mine _ n c r _ hid howner h :=
    ⟨h.1.run_exec _ c r, h.2.1, h.2.2.run_mine hid (howner.trans (h.1.netAddr i))⟩
  alone _ n c r id hid howner hothers h := by
    have hdead : owner id ∉ n.awake := fun hmem => by
      have := h.1.mem_others.mpr ⟨hmem, h.1.netAddr i ▸ howner⟩
      rw [hothers] at this
      cases this
    have hr : ∀ id', r.id = some id' → owner id' ∉ n.awake := fun id' hid' => by
      cases hid.symm.trans hid'
      exact hdead
    refine ⟨h.1.run_useNumber.run_exec _ c r, h.2.1, ?_⟩
    exact ((h.2.2.forget hr).run_update (fun p hp _ _ _ => hp) rfl).run_exec _ _ hr
  away _ n c r id hid howner _ h _ := by
    refine ⟨h.1.run_askOthers h.2.1 c r, h.2.1, h.2.2.run_askOthers h.1 fun id' hid' => ?_⟩
    cases hid.symm.trans hid'
    exact h.1.netAddr i ▸ howner

namespace Forwarded

variable {n : Network} {i : Nat} {owed : List (Sender × Request)}

theorem run_serverDoCreate (h : Forwarded owed n) {r : Request} (hr : r.id = none) (c : Sender) :
    Forwarded owed (n.run i (serverDoCreate r c)) := by
  rw [serverDoCreate_eq, Network.run_andThen]
  exact (h.run_exec none c (by simp [hr])).run_quiet (A := fun _ => True) (.createBody r c _)

theorem run_createAll (h : Forwarded owed n) {l : List PendingRequest}
    (hl : ∀ p ∈ l, p.r.id = none) : Forwarded owed (n.run i (createAll l)) := by
  induction l generalizing n with
  | nil =>
    rw [createAll, Network.run_skip]
    exact h
  | cons p rest ih =>
    rw [createAll, Network.run_andThen]
    exact ih (h.run_serverDoCreate (hl p List.mem_cons_self) p.c)
      fun q hq => hl q (List.mem_cons_of_mem p hq)

theorem run_dropNamed (h : Forwarded owed n) (r : Request) :
    Forwarded owed (n.run i (dropNamed r)) :=
  h.run_update (fun _ hp _ _ _ => (List.mem_filter.mp hp).1) rfl

end Forwarded

namespace Forwarded

variable {n : Network} {src dst : Nat} {l₁ l₂ : List Mail} {c : Sender} {r : Request}

/-- The server takes up the request of a client. -/
theorem remove_client (h : Forwarded [] n) (hmails : n.mails = l₁ ++ ⟨src, dst, .client c r⟩ :: l₂) :
    Forwarded [(c, r)] (n.withMails (l₁ ++ l₂)) := by
  refine h.remove hmails (by simp) fun c' r' id' _ _ => ?_
  by_cases heq : (c, r) = (c', r')
  · cases heq
    simp [Mail.brings]
  · have hne : ¬ (c = c' ∧ r = r') := by simpa using heq
    simp [Mail.brings, hne, List.count_cons_of_ne heq]

/-- A mail about a create takes nothing from the requests with an id. -/
theorem remove_createReply {rid : Nat} {response : Bool} (h : Forwarded [] n) (hid : r.id = none)
    (hmails : n.mails = l₁ ++ ⟨src, dst, .reply rid c r response⟩ :: l₂) :
    Forwarded [] (n.withMails (l₁ ++ l₂)) := by
  refine h.remove hmails (fun j p hp id hid' _ => ⟨by simp, fun heq => ?_⟩) (by simp [Mail.brings])
  simp only [Mail.mk.injEq, Body.reply.injEq] at heq
  obtain ⟨-, -, -, -, rfl, -⟩ := heq
  rw [hid] at hid'
  cases hid'

/-- A reply that matches no entry is dropped. -/
theorem remove_unmatched {rid : Nat} {response : Bool} (h : Forwarded [] n)
    (hmails : n.mails = l₁ ++ ⟨src, dst, .reply rid c r response⟩ :: l₂)
    (hfind : findPending (n.server dst) c rid (r.reread response).1 = none) :
    Forwarded [] (n.withMails (l₁ ++ l₂)) := by
  refine h.remove hmails (fun j p hp id hid _ => ⟨by simp, fun heq => ?_⟩) (by simp [Mail.brings])
  simp only [Mail.mk.injEq, Body.reply.injEq] at heq
  obtain ⟨-, rfl, rfl, rfl, rfl, rfl⟩ := heq
  have hread : (p.r.reread true).1 = p.r := by
    cases hr : p.r <;> first | rfl | (rw [hr] at hid; cases hid)
  rw [hread] at hfind
  exact findPending_ne_none hp hfind

end Forwarded

/-- **Handling a mail keeps the bookkeeping.** -/
theorem Forwarded.receive {n : Network} {l₁ l₂ : List Mail} {m : Mail} (hn : Numbered n)
    (h : Forwarded [] n) (hmails : n.mails = l₁ ++ m :: l₂) (hdst : m.dst ∈ n.awake) :
    Forwarded [] ((n.withMails (l₁ ++ l₂)).run m.dst (receive m.src m.body)) := by
  have hn' : Numbered (n.withMails (l₁ ++ l₂)) := hn.remove hmails
  have hok : MailOk n m := hn.mails m (by simp [hmails])
  have hok' : MailOk (n.withMails (l₁ ++ l₂)) m := hok.of_eq rfl rfl
  obtain ⟨src, dst, body⟩ := m
  obtain ⟨f, hf, heq⟩ := receive_spec src ((n.withMails (l₁ ++ l₂)).server dst) body
  rw [Network.run_congr _ _ heq]
  cases hf with
  | clientId hid =>
    exact ((forwarded_carries dst).serve [] hid (fun _ _ _ => trivial)
      ⟨hn', hdst, h.remove_client hmails⟩).2.2
  | clientHas hid =>
    exact ((h.remove_client hmails).forget (by simp [hid])).run_serverDoCreate
      (by rw [read_id, hid]) _
  | clientAsk hid =>
    exact (((h.remove_client hmails).forget (by simp [hid])).owe
      (by simp [read_id, hid])).run_askOthers hn' (by simp [read_id, hid])
  | clientAlone hid =>
    rw [Network.run_andThen]
    exact (((h.remove_client hmails).forget (by simp [hid])).run_update
      (fun p hp _ _ _ => hp) rfl).run_serverDoCreate (by rw [read_id, hid]) _
  | requestMine hid howner =>
    have hreply := h.run_sendReply hn true hmails fun id' hid' => by
      cases hid.symm.trans hid'
      simpa [hn.netAddr] using howner
    rw [Network.withMails_server, hn.netAddr] at howner
    simp only [execute, Network.run_andThen]
    exact ((forwarded_carries dst).serverDo [] _ _ _ (fun _ _ _ => trivial)
      ⟨(hn'.run_sendReply hok' true).run_exec _ _ _, hdst, hreply.run_mine hid howner⟩).2.2
  | requestOther hid howner =>
    refine h.run_sendReply hn false hmails fun id' hid' => ?_
    cases hid.symm.trans hid'
    simpa [hn.netAddr] using howner
  | createHas hid =>
    rw [Network.run_andThen]
    exact ((h.run_sendReply hn true hmails (by simp [hid])).forget
      (by simp [hid])).run_serverDoCreate hid _
  | createAdopt hid =>
    rw [Network.run_andThen]
    refine ((h.run_sendReply hn true hmails (by simp [hid])).forget (by simp [hid])).run_update ?_ rfl
    intro p hp id hid' _
    rcases List.mem_append.mp hp with hp | hp
    · exact hp
    · rw [List.mem_singleton.mp hp, hid] at hid'
      cases hid'
  | createNo hid => exact h.run_sendReply hn false hmails (by simp [hid])
  | replyNone hfind =>
    rw [Network.run_skip]
    exact h.remove_unmatched hmails hfind
  | replyYes hid hfind hp =>
    exact h.run_deletePendingRequest hn hmails hp (found_requestID hfind hp)
  | @replyLast rid c r index p id hid hfind hp hlast =>
    have hcounted := h.run_countNo hmails hp (found_requestID hfind hp)
    have hdead : owner id ∉ n.awake := by
      intro hawake
      have hr : p.r = r := (hok.agree p (List.mem_of_getElem? hp) (found_requestID hfind hp)).2
      have hmissing := h.missing dst p (List.mem_of_getElem? hp) id (hr ▸ hid) hawake
      have hagainst : 0 < n.mails.countP (Mail.against dst p.requestID (owner id)) := by
        have hmem : ⟨src, dst, .reply rid c r false⟩ ∈ n.mails := by simp [hmails]
        exact List.countP_pos_iff.mpr ⟨_, hmem, by simp [Mail.against, found_requestID hfind hp]⟩
      omega
    simp only [execute, Network.run_andThen]
    refine ((forwarded_carries dst).serverDo [] _ _ _ (fun _ _ _ => trivial)
      ⟨(hn'.run_countNo hp).run_exec _ _ _, hdst, hcounted.run_exec _ _ fun id' hid' => ?_⟩).2.2.run_update
        (fun q hq _ _ _ => List.mem_of_mem_eraseIdx hq) rfl
    cases hid.symm.trans hid'
    exact hdead
  | replyNo hid hfind hp => exact h.run_countNo hmails hp (found_requestID hfind hp)
  | createReplyYes hid hread hfind hp =>
    rw [Network.run_andThen]
    exact ((h.remove_createReply hid hmails).run_update
      (fun q hq _ _ _ => List.mem_of_mem_eraseIdx hq) rfl).run_dropNamed _
  | @createReplyLast rid c r response r' index p hid hread hfind hp =>
    have hcreate := found_create hid hread hfind hp
    simp only [Network.run_andThen, run_createNamed]
    refine (run_createAll (run_update (run_serverDoCreate (run_update
      (h.remove_createReply hid hmails) ?_ rfl) hcreate _)
      (fun q hq _ _ _ => List.mem_of_mem_eraseIdx hq) rfl)
      fun q hq => sameCreate_id (List.mem_filter.mp hq).2).run_dropNamed _
    intro q hq id hid' _
    rcases List.mem_or_eq_of_mem_set hq with hq | rfl
    · exact hq
    · rw [hcreate] at hid'
      cases hid'
  | createReplyNo hid hread hfind hp =>
    refine (h.remove_createReply hid hmails).run_update (fun q hq id hid' _ => ?_) rfl
    rcases List.mem_or_eq_of_mem_set hq with hq | rfl
    · exact hq
    · rw [found_create hid hread hfind hp] at hid'
      cases hid'
  | answer =>
    rw [Network.run_skip]
    exact h.remove hmails (by simp) (by simp [Mail.brings])

/-- **Every step keeps the bookkeeping.** -/
theorem forwarded_step {n n' : Network} {op : Op} (hn : Numbered n) (h : Forwarded [] n)
    (hstep : NetStep n op n') : Forwarded [] n' := by
  cases netStep_spec hstep with
  | @send machine mailbox dst r hmachine hdst =>
    have hagainst : ∀ j rid o, (n.mails ++ [(⟨machine, dst,
        .client ⟨machine, mailbox, n.nextTag⟩ r⟩ : Mail)]).countP (Mail.against j rid o) =
          n.mails.countP (Mail.against j rid o) := by
      intro j rid o
      rw [List.countP_append, List.countP_singleton]
      rfl
    refine ⟨fun j p hp id hid hawake => ?_, fun j p hp id hid hawake => ?_,
      fun c r' id hid hawake => ?_, h.place⟩
    · rw [hagainst]
      exact h.missing j p hp id hid hawake
    · exact (h.alive j p hp id hid hawake).imp (List.mem_append_left _) (List.mem_append_left _)
    · have hcount := h.count c r' id hid hawake
      have hbrings : Mail.brings (owner id) c r'
          ⟨machine, dst, .client ⟨machine, mailbox, n.nextTag⟩ r⟩ =
            ((⟨machine, mailbox, n.nextTag⟩, r) == (c, r')) := by
        rw [Bool.eq_iff_iff, beq_iff_eq, Prod.mk.injEq]
        exact decide_eq_true_iff
      simp only [Network.requested, Network.executed, List.count_append, List.countP_append,
        List.countP_singleton, List.count_singleton, hbrings] at hcount ⊢
      omega
  | deliver hmails hdst => exact h.receive hn hmails hdst
  | @take l₁ m l₂ hmails hdst =>
    have hok : MailOk n m := hn.mails m (by simp [hmails])
    obtain ⟨src, dst, body⟩ := m
    have hclient : ∀ j ∈ n.awake, dst ≠ j := by
      rintro j hj rfl
      have hlt := hn.awake_lt dst hj
      exact absurd hlt (Nat.not_lt.mpr hdst)
    cases body with
    | answer c a => exact h.remove hmails (by simp) (by simp [Mail.brings])
    | client c r => exact absurd rfl (hclient _ hok)
    | request rid c r => exact absurd rfl (hclient _ hok.asked_awake)
    | reply rid c r response => exact absurd rfl (hclient _ hok.asker_awake)

end Nachos.Net

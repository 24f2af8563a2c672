import Nachos.Lib.Counting
import Nachos.Net.Numbering

/-!
# Votes

A pending request that was sent to the other servers waits for as many votes as it was sent
to. The NOs it has counted and the mails about it that are still on their way never exceed
that number, and for a request with an id they make it up exactly (`Polled`): it is only
given up when the last vote is in.
-/

namespace Nachos.Net

/-- A question of `asker` under the number `requestID`, or a vote on it. -/
def Mail.concerns (asker requestID : Nat) (m : Mail) : Bool :=
  match m.body with
  | .request rid _ _ => decide (m.src = asker) && decide (rid = requestID)
  | .reply rid _ _ _ => decide (m.dst = asker) && decide (rid = requestID)
  | _ => false

/-- The votes on the pending requests; the entries `ex` are left out. -/
structure Polled (ex : Nat → Nat → Prop) (n : Network) : Prop where
  upper : ∀ j, ∀ p ∈ (n.server j).pendingRequests, ¬ ex j p.requestID → 0 ≤ p.sentCount →
    (p.noCount + n.mails.countP (Mail.concerns j p.requestID) : Int) ≤ p.sentCount
  lower : ∀ j, ∀ p ∈ (n.server j).pendingRequests, ¬ ex j p.requestID → ∀ id, p.r.id = some id →
    p.noCount < p.sentCount ∧
      p.sentCount ≤ (p.noCount + n.mails.countP (Mail.concerns j p.requestID) : Int)

theorem polled_init (up : Nat → Bool) : Polled (fun _ _ => False) (.init up) where
  upper _ _ h := by cases h
  lower _ _ h := by cases h

namespace Polled

variable {n : Network} {i : Nat} {ex : Nat → Nat → Prop}

/-- Code that makes no entry pending and sends no mail between servers. -/
theorem run {f : Act} (h : Polled ex n)
    (hpending : ∀ p ∈ (f (n.server i)).1.pendingRequests, ¬ ex i p.requestID →
      p ∈ (n.server i).pendingRequests ∨ p.sentCount < 0 ∧ p.r.id = none)
    (hmails : ∀ m ∈ mailsOf i (f (n.server i)).2, ∃ c a, m.body = .answer c a) :
    Polled ex (n.run i f) := by
  have hzero : ∀ j rid, (n.run i f).mails.countP (Mail.concerns j rid) =
      n.mails.countP (Mail.concerns j rid) := by
    intro j rid
    rw [Network.run_mails, List.countP_append, Nat.add_eq_left, List.countP_eq_zero]
    intro m hm
    obtain ⟨c, a, hbody⟩ := hmails m hm
    simp [Mail.concerns, hbody]
  have hsame : ∀ j, ∀ p ∈ ((n.run i f).server j).pendingRequests, ¬ ex j p.requestID →
      p ∈ (n.server j).pendingRequests ∨ p.sentCount < 0 ∧ p.r.id = none := by
    intro j p hp hex
    by_cases hj : j = i
    · subst hj
      rw [Network.run_server_self] at hp
      exact hpending p hp hex
    · rw [Network.run_server_of_ne _ _ _ hj] at hp
      exact .inl hp
  refine ⟨fun j p hp hex hsent => ?_, fun j p hp hex id hid => ?_⟩
  · rw [hzero]
    rcases hsame j p hp hex with hp | ⟨hneg, -⟩
    · exact h.upper j p hp hex hsent
    · omega
  · rw [hzero]
    rcases hsame j p hp hex with hp | ⟨-, hnone⟩
    · exact h.lower j p hp hex id hid
    · rw [hnone] at hid
      cases hid

theorem run_quiet {A : Sender → Prop} {f : Act} (h : Polled ex n)
    (hf : Quiet A (n.server i) (f (n.server i)).2 (f (n.server i)).1) :
    Polled ex (n.run i f) := by
  refine h.run (fun p hp _ => .inl (hf.pending ▸ hp)) fun m hm => ?_
  have hplain := hf.plain _ (mem_mailsOf hm).2
  obtain ⟨src, dst, body⟩ := m
  cases body with
  | answer c a => exact ⟨c, a, rfl⟩
  | client | request | reply => exact hplain.elim

theorem run_update {f : Act} (h : Polled ex n)
    (hpending : ∀ p ∈ (f (n.server i)).1.pendingRequests, p ∈ (n.server i).pendingRequests)
    (hmails : mailsOf i (f (n.server i)).2 = []) : Polled ex (n.run i f) :=
  h.run (fun p hp _ => .inl (hpending p hp)) (by simp [hmails])

theorem run_adopt (h : Polled ex n) (c : Sender) {r : Request} (hr : r.id = none) :
    Polled ex (n.run i (adopt c r)) := by
  refine h.run (fun p hp _ => ?_) (by simp [adopt])
  rcases List.mem_append.mp hp with hp | hp
  · exact .inl hp
  · rw [List.mem_singleton.mp hp]
    exact .inr ⟨by simp, hr⟩

/-- No mail concerns a number that was not used yet. -/
theorem concerns_unused (hn : Numbered n) (j : Nat) :
    n.mails.countP (Mail.concerns j (n.server j).pendingRequestCount) = 0 := by
  refine List.countP_eq_zero.mpr fun m hm hconcerns => ?_
  have hok := hn.mails m hm
  obtain ⟨src, dst, body⟩ := m
  cases body with
  | client | answer => cases hconcerns
  | request rid c r =>
    have hlt := hok.lt
    simp only [Mail.concerns, Bool.and_eq_true, decide_eq_true_eq] at hconcerns
    obtain ⟨rfl, rfl⟩ := hconcerns
    exact Nat.lt_irrefl _ hlt
  | reply rid c r response =>
    have hlt := hok.lt
    simp only [Mail.concerns, Bool.and_eq_true, decide_eq_true_eq] at hconcerns
    obtain ⟨rfl, rfl⟩ := hconcerns
    exact Nat.lt_irrefl _ hlt

theorem run_askOthers (hn : Numbered n) (h : Polled ex n) (c : Sender) (r : Request)
    (hothers : (n.server i).others ≠ []) : Polled ex (n.run i (askOthers c r)) := by
  have hmails : (n.run i (askOthers c r)).mails = n.mails ++ (n.server i).others.map
      fun dst => ⟨i, dst, .request (n.server i).pendingRequestCount c r⟩ := by
    rw [Network.run_mails, askOthers, mailsOf_map]
  have hold : ∀ j, ∀ p ∈ (n.server j).pendingRequests,
      (n.run i (askOthers c r)).mails.countP (Mail.concerns j p.requestID) =
        n.mails.countP (Mail.concerns j p.requestID) := by
    intro j p hp
    rw [hmails, List.countP_append, Nat.add_eq_left, List.countP_eq_zero]
    intro m hm
    obtain ⟨d, -, rfl⟩ := List.mem_map.mp hm
    have hlt := hn.lt j p hp
    simp only [Mail.concerns, Bool.and_eq_true, decide_eq_true_eq]
    rintro ⟨rfl, heq⟩
    omega
  have hnew : (n.run i (askOthers c r)).mails.countP
      (Mail.concerns i (n.server i).pendingRequestCount) = (n.server i).others.length := by
    rw [hmails, List.countP_append, concerns_unused hn, Nat.zero_add, List.countP_map]
    exact List.countP_eq_length.mpr fun d _ => by simp [Mail.concerns]
  have hpos : 0 < (n.server i).others.length := List.length_pos_iff.mpr hothers
  have hpending : ∀ j, ∀ p ∈ ((n.run i (askOthers c r)).server j).pendingRequests,
      p ∈ (n.server j).pendingRequests ∨ j = i ∧
        p = ⟨c, r, (n.server i).others.length, 0, (n.server i).pendingRequestCount⟩ := by
    intro j p hp
    by_cases hj : j = i
    · subst hj
      rw [Network.run_server_self] at hp
      exact (List.mem_append.mp hp).imp_right fun h => ⟨rfl, List.mem_singleton.mp h⟩
    · rw [Network.run_server_of_ne _ _ _ hj] at hp
      exact .inl hp
  refine ⟨fun j p hp hex hsent => ?_, fun j p hp hex id hid => ?_⟩
  · rcases hpending j p hp with hp | ⟨rfl, rfl⟩
    · rw [hold j p hp]
      exact h.upper j p hp hex hsent
    · dsimp only
      rw [hnew]
      omega
  · rcases hpending j p hp with hp | ⟨rfl, rfl⟩
    · rw [hold j p hp]
      exact h.lower j p hp hex id hid
    · dsimp only
      rw [hnew]
      omega

/-- A question becomes a vote. -/
theorem run_sendReply {src rid : Nat} {c : Sender} {r : Request} {l₁ l₂ : List Mail}
    (h : Polled ex n) (response : Bool)
    (hmails : n.mails = l₁ ++ ⟨src, i, .request rid c r⟩ :: l₂) :
    Polled ex ((n.withMails (l₁ ++ l₂)).run i (sendReply src rid c r response)) := by
  have hcount : ∀ j rid', ((n.withMails (l₁ ++ l₂)).run i
      (sendReply src rid c r response)).mails.countP (Mail.concerns j rid') =
        n.mails.countP (Mail.concerns j rid') := by
    intro j rid'
    have hmails' : ((n.withMails (l₁ ++ l₂)).run i (sendReply src rid c r response)).mails =
        l₁ ++ l₂ ++ [⟨i, src, .reply rid c r response⟩] := rfl
    have hsame : Mail.concerns j rid' ⟨i, src, .reply rid c r response⟩ =
        Mail.concerns j rid' ⟨src, i, .request rid c r⟩ := rfl
    simp only [hmails, hmails', List.countP_append, List.countP_cons, List.countP_nil, hsame]
    omega
  have hserver : ∀ j, (((n.withMails (l₁ ++ l₂)).run i
      (sendReply src rid c r response)).server j).pendingRequests =
        (n.server j).pendingRequests := by
    intro j
    by_cases hj : j = i
    · subst hj
      rw [Network.run_server_self]
      rfl
    · rw [Network.run_server_of_ne _ _ _ hj]
      rfl
  refine ⟨fun j p hp hex hsent => ?_, fun j p hp hex id hid => ?_⟩
  · rw [hcount]
    exact h.upper j p (hserver j ▸ hp) hex hsent
  · rw [hcount]
    exact h.lower j p (hserver j ▸ hp) hex id hid

/-- A vote that no entry waits for is dropped. -/
theorem remove {l₁ l₂ : List Mail} {m : Mail} (h : Polled ex n)
    (hmails : n.mails = l₁ ++ m :: l₂)
    (hm : ∀ j, ∀ p ∈ (n.server j).pendingRequests, ¬ ex j p.requestID → ∀ id, p.r.id = some id →
      m.concerns j p.requestID = false) : Polled ex (n.withMails (l₁ ++ l₂)) := by
  have hsplit : ∀ j rid, n.mails.countP (Mail.concerns j rid) =
      (l₁ ++ l₂).countP (Mail.concerns j rid) + if m.concerns j rid then 1 else 0 := by
    intro j rid
    rw [hmails, List.countP_append, List.countP_append, List.countP_cons, Nat.add_assoc]
  refine ⟨fun j p hp hex hsent => ?_, fun j p hp hex id hid => ?_⟩
  · have hold := h.upper j p hp hex hsent
    rw [hsplit] at hold
    rw [Network.withMails_mails]
    omega
  · have hold := h.lower j p hp hex id hid
    rw [hsplit, hm j p hp hex id hid] at hold
    exact hold

/-- Leave more entries out. -/
theorem except {ex' : Nat → Nat → Prop} (h : Polled ex n) (hsub : ∀ j rid, ex j rid → ex' j rid) :
    Polled ex' n :=
  ⟨fun j p hp hex => h.upper j p hp fun hold => hex (hsub _ _ hold),
    fun j p hp hex => h.lower j p hp fun hold => hex (hsub _ _ hold)⟩

/-- A vote that was counted is no longer on its way. -/
theorem run_countNo {src rid index : Nat} {c : Sender} {r : Request} {response : Bool}
    {p : PendingRequest} {l₁ l₂ : List Mail} (hn : Numbered n) (h : Polled ex n)
    (hmails : n.mails = l₁ ++ ⟨src, i, .reply rid c r response⟩ :: l₂)
    (hp : (n.server i).pendingRequests[index]? = some p) (hrid : p.requestID = rid)
    (hlast : (p.noCount + 1 : Int) ≠ p.sentCount) :
    Polled ex ((n.withMails (l₁ ++ l₂)).run i (.update (countNo index p))) := by
  rw [Network.run_withMails _ _ _ _ rfl]
  have hpending : ∀ j, ∀ q ∈ (((n.run i (.update (countNo index p))).withMails
      (l₁ ++ l₂)).server j).pendingRequests,
      (q ∈ (n.server j).pendingRequests ∧ ¬ (j = i ∧ q.requestID = rid)) ∨
        j = i ∧ q = { p with noCount := p.noCount + 1 } := by
    intro j q hq
    rw [Network.withMails_server] at hq
    by_cases hj : j = i
    · subst hj
      rw [Network.run_server_self] at hq
      rcases mem_set_cases hp hq with hq | hq
      · exact .inr ⟨rfl, hq⟩
      · refine .inl ⟨List.mem_of_mem_eraseIdx hq, fun heq => ?_⟩
        exact ne_of_mem_eraseIdx (hn.distinct j) hp hq (heq.2.trans hrid.symm)
    · rw [Network.run_server_of_ne _ _ _ hj] at hq
      exact .inl ⟨hq, fun heq => hj heq.1⟩
  have hother : ∀ j rid', ¬ (j = i ∧ rid' = rid) →
      (l₁ ++ l₂).countP (Mail.concerns j rid') = n.mails.countP (Mail.concerns j rid') := by
    intro j rid' hne
    have hm : Mail.concerns j rid' ⟨src, i, .reply rid c r response⟩ = false := by
      simp only [Mail.concerns, Bool.and_eq_false_iff, decide_eq_false_iff_not]
      by_cases hj : i = j
      · exact .inr fun heq => hne ⟨hj.symm, heq.symm⟩
      · exact .inl hj
    rw [hmails, List.countP_append, List.countP_append, List.countP_cons_of_neg (by simp [hm])]
  have hsame : (l₁ ++ l₂).countP (Mail.concerns i p.requestID) + 1 =
      n.mails.countP (Mail.concerns i p.requestID) := by
    rw [hmails, List.countP_append, List.countP_append,
      List.countP_cons_of_pos (by simp [Mail.concerns, hrid]), Nat.add_assoc]
  refine ⟨fun j q hq hex hsent => ?_, fun j q hq hex id hid => ?_⟩
  · rw [Network.withMails_mails]
    rcases hpending j q hq with ⟨hq, hne⟩ | ⟨rfl, rfl⟩
    · rw [hother j _ hne]
      exact h.upper j q hq hex hsent
    · have hold := h.upper j p (List.mem_of_getElem? hp) hex hsent
      push_cast
      omega
  · rw [Network.withMails_mails]
    rcases hpending j q hq with ⟨hq, hne⟩ | ⟨rfl, rfl⟩
    · rw [hother j _ hne]
      exact h.lower j q hq hex id hid
    · have hold := h.lower j p (List.mem_of_getElem? hp) hex id hid
      push_cast
      omega

/-- A request is given up with the vote that decided it. -/
theorem run_deletePendingRequest {src rid index : Nat} {c : Sender} {r : Request}
    {response : Bool} {p : PendingRequest} {l₁ l₂ : List Mail} (hn : Numbered n) (h : Polled ex n)
    (hmails : n.mails = l₁ ++ ⟨src, i, .reply rid c r response⟩ :: l₂)
    (hp : (n.server i).pendingRequests[index]? = some p) (hrid : p.requestID = rid) :
    Polled ex ((n.withMails (l₁ ++ l₂)).run i (deletePendingRequest index)) := by
  rw [Network.run_withMails _ _ _ _ rfl]
  have hmails' : (n.run i (deletePendingRequest index)).mails =
      l₁ ++ ⟨src, i, .reply rid c r response⟩ :: l₂ := by
    rw [Network.run_mails, hmails]
    exact List.append_nil _
  refine (h.run_update (fun q hq => List.mem_of_mem_eraseIdx hq) rfl).remove hmails' ?_
  intro j q hq _ _ _
  by_cases hj : j = i
  · subst hj
    rw [Network.run_server_self] at hq
    have hne := ne_of_mem_eraseIdx (hn.distinct j) hp hq
    simp only [Mail.concerns, Bool.and_eq_false_iff, decide_eq_false_iff_not]
    exact .inr fun heq => hne (heq.symm.trans hrid.symm)
  · simp only [Mail.concerns, Bool.and_eq_false_iff, decide_eq_false_iff_not]
    exact .inl (Ne.symm hj)

/-- The entry that was left out is gone. -/
theorem run_delete_except {rid index : Nat} {p : PendingRequest} (hn : Numbered n)
    (h : Polled (fun j rid' => j = i ∧ rid' = rid) n)
    (hp : (n.server i).pendingRequests[index]? = some p) (hrid : p.requestID = rid) :
    Polled (fun _ _ => False) (n.run i (deletePendingRequest index)) := by
  have hdeleted := h.run_update (i := i) (f := deletePendingRequest index)
    (fun q hq => List.mem_of_mem_eraseIdx hq) rfl
  have hne : ∀ j, ∀ q ∈ ((n.run i (deletePendingRequest index)).server j).pendingRequests,
      ¬ (j = i ∧ q.requestID = rid) := by
    rintro j q hq ⟨rfl, heq⟩
    rw [Network.run_server_self] at hq
    exact ne_of_mem_eraseIdx (hn.distinct j) hp hq (heq.trans hrid.symm)
  exact ⟨fun j q hq _ => hdeleted.upper j q hq (hne j q hq),
    fun j q hq _ => hdeleted.lower j q hq (hne j q hq)⟩

theorem run_serverDoCreate (h : Polled ex n) (r : Request) (c : Sender) :
    Polled ex (n.run i (serverDoCreate r c)) := by
  rw [serverDoCreate_eq, Network.run_andThen]
  exact (h.run_update (f := .emit (.exec none c r)) (fun _ hp => hp) rfl).run_quiet
    (A := fun _ => True) (.createBody r c _)

theorem run_createAll (h : Polled ex n) (l : List PendingRequest) :
    Polled ex (n.run i (createAll l)) := by
  induction l generalizing n with
  | nil =>
    rw [createAll, Network.run_skip]
    exact h
  | cons p rest ih =>
    rw [createAll, Network.run_andThen]
    exact ih (h.run_serverDoCreate p.r p.c)

theorem run_dropNamed (h : Polled ex n) (r : Request) : Polled ex (n.run i (dropNamed r)) :=
  h.run_update (fun _ hp => (List.mem_filter.mp hp).1) rfl

end Polled

theorem polled_carries (i : Nat) (ex : Nat → Nat → Prop) :
    Carries i (fun _ => True) fun _ n => Numbered n ∧ i ∈ n.awake ∧ Polled ex n where
  waiting _ _ _ _ _ := trivial
  quiet _ _ _ hf h := ⟨h.1.run_quiet hf, h.2.1, h.2.2.run_quiet hf⟩
  nested _ _ c r _ _ h := ⟨h.1.run_nested c r, h.2.1, h.2.2.run_update (fun _ hp => hp) rfl⟩
  mine _ _ c r _ _ _ h := ⟨h.1.run_exec _ c r, h.2.1, h.2.2.run_update (fun _ hp => hp) rfl⟩
  alone _ _ c r _ _ _ _ h := ⟨h.1.run_useNumber.run_exec _ c r, h.2.1,
    (h.2.2.run_update (fun _ hp => hp) rfl).run_update (fun _ hp => hp) rfl⟩
  away _ _ c r _ _ _ hothers h _ :=
    ⟨h.1.run_askOthers h.2.1 c r, h.2.1, h.2.2.run_askOthers h.1 c r hothers⟩

/-- **Handling a mail keeps the votes.** -/
theorem Polled.receive {n : Network} {l₁ l₂ : List Mail} {m : Mail} (hn : Numbered n)
    (h : Polled (fun _ _ => False) n) (hmails : n.mails = l₁ ++ m :: l₂) (hdst : m.dst ∈ n.awake) :
    Polled (fun _ _ => False) ((n.withMails (l₁ ++ l₂)).run m.dst (receive m.src m.body)) := by
  have hn' : Numbered (n.withMails (l₁ ++ l₂)) := hn.remove hmails
  have hok : MailOk n m := hn.mails m (by simp [hmails])
  have hok' : MailOk (n.withMails (l₁ ++ l₂)) m := hok.of_eq rfl rfl
  obtain ⟨src, dst, body⟩ := m
  obtain ⟨f, hf, heq⟩ := receive_spec src ((n.withMails (l₁ ++ l₂)).server dst) body
  rw [Network.run_congr _ _ heq]
  -- the last vote: the entry is left out while the request is run
  have hexcept : ∀ rid c r response index p, body = .reply rid c r response →
      (n.server dst).pendingRequests[index]? = some p → p.requestID = rid →
      Polled (fun j rid' => j = dst ∧ rid' = rid)
        ((n.withMails (l₁ ++ l₂)).run dst (.update (countNo index p))) := by
    rintro rid c r response index p rfl hp hrid
    have hremoved : Polled (fun j rid' => j = dst ∧ rid' = rid) (n.withMails (l₁ ++ l₂)) := by
      refine (h.except fun _ _ hfalse => hfalse.elim).remove hmails fun j q _ hex _ _ => ?_
      simp only [Mail.concerns, Bool.and_eq_false_iff, decide_eq_false_iff_not]
      by_cases hj : dst = j
      · exact .inr fun heq => hex ⟨hj.symm, heq.symm⟩
      · exact .inl hj
    refine hremoved.run (fun q hq hex => ?_) (by simp)
    rcases mem_set_cases hp hq with rfl | hq
    · exact absurd ⟨rfl, hrid⟩ hex
    · exact .inl (List.mem_of_mem_eraseIdx hq)
  cases hf with
  | clientId hid =>
    exact ((polled_carries dst _).serve [] hid (fun _ _ _ => trivial)
      ⟨hn', hdst, h.remove hmails (by simp [Mail.concerns])⟩).2.2
  | clientHas => exact (h.remove hmails (by simp [Mail.concerns])).run_serverDoCreate _ _
  | clientAsk hid hhas hothers =>
    exact (h.remove hmails (by simp [Mail.concerns])).run_askOthers hn' _ _ hothers
  | clientAlone =>
    rw [Network.run_andThen]
    exact ((h.remove hmails (by simp [Mail.concerns])).run_update (fun _ hp => hp)
      rfl).run_serverDoCreate _ _
  | requestMine =>
    simp only [execute, Network.run_andThen]
    exact ((polled_carries dst _).serverDo [] _ _ _ (fun _ _ _ => trivial)
      ⟨(hn'.run_sendReply hok' true).run_exec _ _ _, hdst,
        (h.run_sendReply true hmails).run_update (fun _ hp => hp) rfl⟩).2.2
  | requestOther | createNo => exact h.run_sendReply false hmails
  | createHas =>
    rw [Network.run_andThen]
    exact (h.run_sendReply true hmails).run_serverDoCreate _ _
  | createAdopt hid =>
    rw [Network.run_andThen]
    exact (h.run_sendReply true hmails).run_adopt _ hid
  | @replyNone rid c r response hfind =>
    rw [Network.run_skip]
    refine h.remove hmails fun j p hp _ id hid => ?_
    simp only [Mail.concerns, Bool.and_eq_false_iff, decide_eq_false_iff_not]
    by_cases hj : dst = j
    · subst hj
      refine .inr fun hrid => ?_
      obtain ⟨rfl, rfl⟩ := hok.agree p hp hrid.symm
      have hread : (p.r.reread response).1 = p.r := by
        cases hr : p.r <;> first | rfl | (rw [hr] at hid; cases hid)
      rw [hread, hrid] at hfind
      exact findPending_ne_none hp hfind
    · exact .inl hj
  | replyYes hid hfind hp =>
    exact h.run_deletePendingRequest hn hmails hp (found_requestID hfind hp)
  | @replyLast rid c r index p id hid hfind hp hlast =>
    have hrid := found_requestID hfind hp
    have hlt : index < (n.server dst).pendingRequests.length :=
      (List.getElem?_eq_some_iff.mp hp).1
    simp only [execute, Network.run_andThen]
    obtain ⟨hn₂, -, hpolled⟩ := (polled_carries dst _).serverDo [] r (some id) p.c
      (fun _ _ _ => trivial) ⟨(hn'.run_countNo hp).run_exec (some id) p.c r, hdst,
        (hexcept rid c r false index p rfl hp hrid).run_update (fun _ hp => hp) rfl⟩
    have hcounted : ((((n.withMails (l₁ ++ l₂)).run dst (.update (countNo index p))).run dst
        (.emit (.exec (some id) p.c r))).server dst).pendingRequests[index]? =
          some { p with noCount := p.noCount + 1 } := by
      rw [Network.run_server_self, Act.emit_apply, Network.run_server_self]
      exact List.getElem?_set_self hlt
    have hentry := run_serverDo_entry hcounted r (some id) p.c
    exact hpolled.run_delete_except hn₂ hentry hrid
  | replyNo hid hfind hp hlast =>
    exact h.run_countNo hn hmails hp (found_requestID hfind hp) hlast
  | createReplyYes hid hread hfind hp =>
    rw [Network.run_andThen]
    exact (h.run_deletePendingRequest hn hmails hp (found_requestID hfind hp)).run_dropNamed _
  | @createReplyLast rid c r response r' index p hid hread hfind hp hlast =>
    have hrid := found_requestID hfind hp
    have hlt : index < (n.server dst).pendingRequests.length :=
      (List.getElem?_eq_some_iff.mp hp).1
    have hn₂ := (hn'.run_countNo hp).run_serverDoCreate (i := dst) p.r p.c
    have hentry : ((((n.withMails (l₁ ++ l₂)).run dst (.update (countNo index p))).run dst
        (serverDoCreate p.r p.c)).server dst).pendingRequests[index]? =
          some { p with noCount := p.noCount + 1 } := by
      rw [Network.run_server_self, serverDoCreate_pending, Network.run_server_self]
      exact List.getElem?_set_self hlt
    have hran := (hexcept rid c r response index p rfl hp hrid).run_serverDoCreate (i := dst) p.r p.c
    simp only [Network.run_andThen, run_createNamed]
    exact ((hran.run_delete_except hn₂ hentry hrid).run_createAll _).run_dropNamed _
  | createReplyNo hid hread hfind hp hlast =>
    exact h.run_countNo hn hmails hp (found_requestID hfind hp) hlast
  | answer =>
    rw [Network.run_skip]
    exact h.remove hmails (by simp [Mail.concerns])

/-- **Every step keeps the votes.** -/
theorem polled_step {n n' : Network} {op : Op} (hn : Numbered n) (h : Polled (fun _ _ => False) n)
    (hstep : NetStep n op n') : Polled (fun _ _ => False) n' := by
  cases netStep_spec hstep with
  | @send machine mailbox dst r hmachine hdst =>
    have hsame : ∀ j rid, (n.mails ++ [(⟨machine, dst,
        .client ⟨machine, mailbox, n.nextTag⟩ r⟩ : Mail)]).countP (Mail.concerns j rid) =
          n.mails.countP (Mail.concerns j rid) := by
      intro j rid
      rw [List.countP_append, List.countP_singleton]
      rfl
    refine ⟨fun j p hp hex hsent => ?_, fun j p hp hex id hid => ?_⟩
    · rw [hsame]
      exact h.upper j p hp hex hsent
    · rw [hsame]
      exact h.lower j p hp hex id hid
  | deliver hmails hdst => exact h.receive hn hmails hdst
  | @take l₁ m l₂ hmails hdst =>
    refine h.remove hmails fun j p hp _ id hid => ?_
    have hok : MailOk n m := hn.mails m (by simp [hmails])
    obtain ⟨src, dst, body⟩ := m
    cases body with
    | client | answer => rfl
    | request rid c r => exact absurd (hn.awake_lt _ hok.asked_awake) (Nat.not_lt.mpr hdst)
    | reply rid c r response =>
      exact absurd (hn.awake_lt _ hok.asker_awake) (Nat.not_lt.mpr hdst)

end Nachos.Net

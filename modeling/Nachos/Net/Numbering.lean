import Nachos.Net.Receive

/-!
# Request numbers

The servers number their pending requests. A mail between servers carries the number of the
server that asked, and when that server still has an entry with this number, the entry is
for the client and the request in the mail (`Numbered`). Everything the servers conclude
from a reply rests on this.
-/

namespace Nachos.Net

/-- `asker` has asked `asked` about a request under the number `requestID`. -/
structure Asked (n : Network) (asker asked requestID : Nat) (c : Sender) (r : Request) : Prop where
  asker_awake : asker ∈ n.awake
  asked_awake : asked ∈ n.awake
  ne : asked ≠ asker
  lt : requestID < (n.server asker).pendingRequestCount
  agree : ∀ p ∈ (n.server asker).pendingRequests, p.requestID = requestID → p.c = c ∧ p.r = r

/-- A mail that the servers can have to deal with. -/
def MailOk (n : Network) (m : Mail) : Prop :=
  match m.body with
  | .client _ _ => m.dst ∈ n.awake
  | .request requestID c r => Asked n m.src m.dst requestID c r
  | .reply requestID c r _ => Asked n m.dst m.src requestID c r
  | .answer _ _ => True

structure Numbered (n : Network) : Prop where
  netAddr : ∀ j, (n.server j).netAddr = j
  others : ∀ j, (n.server j).others = n.awake.filter (· ≠ j)
  awake : n.awake.Nodup
  awake_lt : ∀ j ∈ n.awake, j < 5
  lt : ∀ j, ∀ p ∈ (n.server j).pendingRequests, p.requestID < (n.server j).pendingRequestCount
  distinct : ∀ j, ((n.server j).pendingRequests.map PendingRequest.requestID).Nodup
  mails : ∀ m ∈ n.mails, MailOk n m

theorem numbered_init (up : Nat → Bool) : Numbered (.init up) where
  netAddr _ := rfl
  others _ := rfl
  awake := List.nodup_range.filter _
  awake_lt j hj := List.mem_range.mp (List.mem_filter.mp hj).1
  lt _ p hp := by cases hp
  distinct _ := List.nodup_nil
  mails m hm := by cases hm

/-- What is left after an entry is deleted has other numbers. -/
theorem ne_of_mem_eraseIdx {l : List PendingRequest} {index : Nat} {p q : PendingRequest}
    (hnodup : (l.map PendingRequest.requestID).Nodup) (hp : l[index]? = some p)
    (hq : q ∈ l.eraseIdx index) : q.requestID ≠ p.requestID := by
  obtain ⟨l₁, l₂, rfl, rfl, herase⟩ := getElem?_split hp
  rw [herase] at hq
  simp only [List.map_append, List.map_cons] at hnodup
  obtain ⟨-, hcons, hne⟩ := List.nodup_append.mp hnodup
  rcases List.mem_append.mp hq with hq | hq
  · exact hne _ (List.mem_map_of_mem hq) _ List.mem_cons_self
  · intro heq
    exact (List.nodup_cons.mp hcons).1 (heq ▸ List.mem_map_of_mem hq)

/-- What is in a list after one entry was replaced. -/
theorem mem_set_cases {l : List PendingRequest} {index : Nat} {p p' q : PendingRequest}
    (hp : l[index]? = some p) (hq : q ∈ l.set index p') : q = p' ∨ q ∈ l.eraseIdx index := by
  obtain ⟨l₁, l₂, rfl, rfl, herase⟩ := getElem?_split hp
  rw [herase]
  simp only [List.set_append_right _ _ (Nat.le_refl _), Nat.sub_self, List.set_cons_zero,
    List.mem_append, List.mem_cons] at hq ⊢
  rcases hq with hq | hq | hq
  · exact .inr (.inl hq)
  · exact .inl hq
  · exact .inr (.inr hq)

/-! ## What code may do to the pending requests -/

/-- The entries after the code are old ones, perhaps with another count, or have a number
that was not used before. -/
structure Grows (s s' : Server) : Prop where
  netAddr : s'.netAddr = s.netAddr
  others : s'.others = s.others
  count : s.pendingRequestCount ≤ s'.pendingRequestCount
  entries : ∀ p' ∈ s'.pendingRequests,
    (∃ p ∈ s.pendingRequests, p'.requestID = p.requestID ∧ p'.c = p.c ∧ p'.r = p.r) ∨
      s.pendingRequestCount ≤ p'.requestID ∧ p'.requestID < s'.pendingRequestCount
  distinct : (s.pendingRequests.map PendingRequest.requestID).Nodup →
    (∀ p ∈ s.pendingRequests, p.requestID < s.pendingRequestCount) →
    (s'.pendingRequests.map PendingRequest.requestID).Nodup

namespace Grows

variable {s : Server}

theorem of_eq {s' : Server} (haddr : s'.netAddr = s.netAddr) (hothers : s'.others = s.others)
    (hcount : s.pendingRequestCount ≤ s'.pendingRequestCount)
    (hpending : s'.pendingRequests.Sublist s.pendingRequests) : Grows s s' where
  netAddr := haddr
  others := hothers
  count := hcount
  entries p hp := .inl ⟨p, hpending.subset hp, rfl, rfl, rfl⟩
  distinct hnodup _ := hnodup.sublist (hpending.map _)

theorem of_quiet {A : Sender → Prop} {out : List Out} {s' : Server} (h : Quiet A s out s') : Grows s s' :=
  of_eq h.netAddr h.others (Nat.le_of_eq h.count.symm) (h.pending ▸ .refl _)

theorem countNo {index : Nat} {p : PendingRequest} (hp : s.pendingRequests[index]? = some p) :
    Grows s (countNo index p s) where
  netAddr := rfl
  others := rfl
  count := Nat.le_refl _
  entries p' hp' := by
    rcases List.mem_or_eq_of_mem_set hp' with h | rfl
    · exact .inl ⟨p', h, rfl, rfl, rfl⟩
    · exact .inl ⟨p, List.mem_of_getElem? hp, rfl, rfl, rfl⟩
  distinct hnodup _ := by
    have heq : (Net.countNo index p s).pendingRequests.map PendingRequest.requestID =
        s.pendingRequests.map PendingRequest.requestID := by
      obtain ⟨hlt, rfl⟩ := List.getElem?_eq_some_iff.mp hp
      simp only [Net.countNo, List.map_set]
      rw [← List.getElem_map PendingRequest.requestID (h := by simpa using hlt)]
      exact List.set_getElem_self _
    rw [heq]
    exact hnodup

theorem push (p : PendingRequest) (hp : p.requestID = s.pendingRequestCount) :
    Grows s { s with
      pendingRequestCount := s.pendingRequestCount + 1
      pendingRequests := s.pendingRequests ++ [p] } where
  netAddr := rfl
  others := rfl
  count := Nat.le_succ _
  entries p' hp' := by
    rcases List.mem_append.mp hp' with h | h
    · exact .inl ⟨p', h, rfl, rfl, rfl⟩
    · rw [List.mem_singleton.mp h, hp]
      exact .inr ⟨Nat.le_refl _, Nat.lt_succ_self _⟩
  distinct hnodup hlt := by
    simp only [List.map_append, List.map_cons, List.map_nil]
    refine List.nodup_append.mpr ⟨hnodup, by simp, ?_⟩
    intro a ha b hb
    obtain ⟨q, hq, rfl⟩ := List.mem_map.mp ha
    rw [List.mem_singleton.mp hb, hp]
    exact Nat.ne_of_lt (hlt q hq)

end Grows

theorem Asked.run {n : Network} {asker asked requestID i : Nat} {c : Sender} {r : Request}
    {f : Act} (h : Asked n asker asked requestID c r)
    (hgrows : Grows (n.server i) (f (n.server i)).1) :
    Asked (n.run i f) asker asked requestID c r := by
  refine ⟨h.asker_awake, h.asked_awake, h.ne, ?_, ?_⟩
  · by_cases hj : asker = i
    · subst hj
      rw [Network.run_server_self]
      exact Nat.lt_of_lt_of_le h.lt hgrows.count
    · rw [Network.run_server_of_ne _ _ _ hj]
      exact h.lt
  · intro p hp hrid
    by_cases hj : asker = i
    · subst hj
      rw [Network.run_server_self] at hp
      rcases hgrows.entries p hp with ⟨q, hq, heq, hc, hr⟩ | ⟨hfresh, -⟩
      · rw [hc, hr]
        exact h.agree q hq (heq ▸ hrid)
      · have := h.lt
        omega
    · rw [Network.run_server_of_ne _ _ _ hj] at hp
      exact h.agree p hp hrid

theorem MailOk.run {n : Network} {m : Mail} {i : Nat} {f : Act} (h : MailOk n m)
    (hgrows : Grows (n.server i) (f (n.server i)).1) : MailOk (n.run i f) m := by
  obtain ⟨src, dst, body⟩ := m
  cases body with
  | client c r => exact h
  | request requestID c r => exact Asked.run h hgrows
  | reply requestID c r response => exact Asked.run h hgrows
  | answer c a => exact trivial

theorem MailOk.of_eq {n n' : Network} {m : Mail} (h : MailOk n m) (hawake : n'.awake = n.awake)
    (hserver : n'.server = n.server) : MailOk n' m := by
  have hasked : ∀ asker asked rid c r, Asked n asker asked rid c r →
      Asked n' asker asked rid c r := fun _ _ _ _ _ h =>
    ⟨hawake ▸ h.asker_awake, hawake ▸ h.asked_awake, h.ne, hserver ▸ h.lt, hserver ▸ h.agree⟩
  obtain ⟨src, dst, body⟩ := m
  cases body with
  | client c r =>
    change dst ∈ n'.awake
    rw [hawake]
    exact h
  | request requestID c r => exact hasked _ _ _ _ _ h
  | reply requestID c r response => exact hasked _ _ _ _ _ h
  | answer c a => exact trivial

/-- **Code keeps the numbering** when it only grows the entries and its mails are right. -/
theorem Numbered.run {n : Network} {i : Nat} {f : Act} (h : Numbered n)
    (hgrows : Grows (n.server i) (f (n.server i)).1)
    (hmails : ∀ m ∈ mailsOf i (f (n.server i)).2, MailOk (n.run i f) m) :
    Numbered (n.run i f) where
  netAddr j := by
    by_cases hj : j = i
    · subst hj
      rw [Network.run_server_self, hgrows.netAddr, h.netAddr]
    · rw [Network.run_server_of_ne _ _ _ hj, h.netAddr]
  others j := by
    by_cases hj : j = i
    · subst hj
      rw [Network.run_server_self, hgrows.others, h.others, Network.run_awake]
    · rw [Network.run_server_of_ne _ _ _ hj, h.others, Network.run_awake]
  awake := h.awake
  awake_lt := h.awake_lt
  lt j p hp := by
    by_cases hj : j = i
    · subst hj
      rw [Network.run_server_self] at hp ⊢
      rcases hgrows.entries p hp with ⟨q, hq, heq, -, -⟩ | ⟨-, hlt⟩
      · rw [heq]
        exact Nat.lt_of_lt_of_le (h.lt j q hq) hgrows.count
      · exact hlt
    · rw [Network.run_server_of_ne _ _ _ hj] at hp ⊢
      exact h.lt j p hp
  distinct j := by
    by_cases hj : j = i
    · subst hj
      rw [Network.run_server_self]
      exact hgrows.distinct (h.distinct j) (h.lt j)
    · rw [Network.run_server_of_ne _ _ _ hj]
      exact h.distinct j
  mails m hm := by
    rcases List.mem_append.mp hm with hm | hm
    · exact (h.mails m hm).run hgrows
    · exact hmails m hm

/-! ## The pieces of server code -/

namespace Numbered

variable {n : Network} {i : Nat}

theorem run_quiet {A : Sender → Prop} {f : Act} (h : Numbered n)
    (hf : Quiet A (n.server i) (f (n.server i)).2 (f (n.server i)).1) : Numbered (n.run i f) := by
  refine h.run (.of_quiet hf) fun m hm => ?_
  obtain ⟨-, ho⟩ := mem_mailsOf hm
  have hplain := hf.plain _ ho
  obtain ⟨src, dst, body⟩ := m
  cases body with
  | answer c a => trivial
  | client | request | reply => exact hplain.elim

/-- Code without mails that at most drops entries. -/
theorem run_update {f : Act} (h : Numbered n)
    (hgrows : Grows (n.server i) (f (n.server i)).1)
    (hout : mailsOf i (f (n.server i)).2 = []) : Numbered (n.run i f) :=
  h.run hgrows fun m hm => by
    rw [hout] at hm
    cases hm

theorem run_exec (h : Numbered n) (index : Option Nat) (c : Sender) (r : Request) :
    Numbered (n.run i (.emit (.exec index c r))) :=
  h.run_update (.of_eq rfl rfl (Nat.le_refl _) (.refl _)) rfl

theorem run_nested (h : Numbered n) (c : Sender) (r : Request) :
    Numbered (n.run i (.emit (.nested c r))) :=
  h.run_update (.of_eq rfl rfl (Nat.le_refl _) (.refl _)) rfl

theorem run_useNumber (h : Numbered n) : Numbered (n.run i useNumber) :=
  h.run_update (.of_eq rfl rfl (Nat.le_succ _) (.refl _)) rfl

theorem mem_others (h : Numbered n) {j d : Nat} :
    d ∈ (n.server j).others ↔ d ∈ n.awake ∧ d ≠ j := by
  simp [h.others]

theorem run_askOthers (h : Numbered n) (hi : i ∈ n.awake) (c : Sender) (r : Request) :
    Numbered (n.run i (askOthers c r)) := by
  refine h.run (.push _ rfl) fun m hm => ?_
  obtain ⟨hsrc, ho⟩ := mem_mailsOf hm
  obtain ⟨src, dst, body⟩ := m
  obtain ⟨d, hd, heq⟩ := List.mem_map.mp ho
  cases heq
  change src = i at hsrc
  subst hsrc
  obtain ⟨hawake, hne⟩ := h.mem_others.mp hd
  refine Asked.mk hi hawake hne ?_ ?_
  · rw [Network.run_server_self]
    exact Nat.lt_succ_self _
  · intro p hp hrid
    rw [Network.run_server_self] at hp
    rcases List.mem_append.mp hp with hp | hp
    · exact absurd hrid (Nat.ne_of_lt (h.lt _ p hp))
    · rw [List.mem_singleton.mp hp]
      exact ⟨rfl, rfl⟩

theorem run_sendReply (h : Numbered n) {src requestID : Nat} {c : Sender} {r : Request}
    (hasked : Asked n src i requestID c r) (response : Bool) :
    Numbered (n.run i (sendReply src requestID c r response)) := by
  have hgrows : Grows (n.server i) (sendReply src requestID c r response (n.server i)).1 :=
    .of_eq rfl rfl (Nat.le_refl _) (.refl _)
  refine h.run hgrows fun m hm => ?_
  rw [List.mem_singleton.mp hm]
  exact hasked.run hgrows

theorem run_adopt (h : Numbered n) (c : Sender) (r : Request) : Numbered (n.run i (adopt c r)) :=
  h.run_update (.push _ rfl) rfl

theorem run_countNo (h : Numbered n) {index : Nat} {p : PendingRequest}
    (hp : (n.server i).pendingRequests[index]? = some p) :
    Numbered (n.run i (.update (countNo index p))) :=
  h.run_update (.countNo hp) rfl

theorem run_deletePendingRequest (h : Numbered n) (index : Nat) :
    Numbered (n.run i (deletePendingRequest index)) :=
  h.run_update (.of_eq rfl rfl (Nat.le_refl _) (List.eraseIdx_sublist _ _)) rfl

theorem run_dropNamed (h : Numbered n) (r : Request) : Numbered (n.run i (dropNamed r)) :=
  h.run_update (.of_eq rfl rfl (Nat.le_refl _) List.filter_sublist) rfl

theorem run_serverDoCreate (h : Numbered n) (r : Request) (c : Sender) :
    Numbered (n.run i (serverDoCreate r c)) := by
  rw [serverDoCreate_eq, Network.run_andThen]
  exact (h.run_exec none c r).run_quiet (A := fun _ => True) (.createBody r c _)

theorem run_createAll (h : Numbered n) (l : List PendingRequest) :
    Numbered (n.run i (createAll l)) := by
  induction l generalizing n with
  | nil =>
    rw [createAll, Network.run_skip]
    exact h
  | cons p rest ih =>
    rw [createAll, Network.run_andThen]
    exact ih (h.run_serverDoCreate p.r p.c)

end Numbered

theorem run_createNamed (n : Network) (i : Nat) (r : Request) :
    n.run i (createNamed r) = (n.run i (createAll ((n.server i).pendingRequests.filter
      fun p => r.sameCreate p.r))).run i (dropNamed r) := by
  rw [← Network.run_andThen]
  exact n.run_congr i rfl

theorem numbered_carries (i : Nat) :
    Carries i (fun _ => True) fun _ n => Numbered n ∧ i ∈ n.awake where
  waiting _ _ _ _ _ := trivial
  quiet _ _ _ hf h := ⟨h.1.run_quiet hf, h.2⟩
  nested _ _ c r _ _ h := ⟨h.1.run_nested c r, h.2⟩
  mine _ _ c r _ _ _ h := ⟨h.1.run_exec _ c r, h.2⟩
  alone _ _ c r _ _ _ _ h := ⟨h.1.run_useNumber.run_exec _ c r, h.2⟩
  away _ _ c r _ _ _ _ h _ := ⟨h.1.run_askOthers h.2 c r, h.2⟩

/-- An entry stays where it is while requests are taken up. -/
theorem run_serverDo_entry {n : Network} {i index : Nat} {p : PendingRequest}
    (hp : (n.server i).pendingRequests[index]? = some p) (r : Request) (slot : Option Nat)
    (c : Sender) :
    ((n.run i (serverDo r slot c)).server i).pendingRequests[index]? = some p := by
  obtain ⟨l, hl⟩ := (pending_carries i (n.server i).pendingRequests).serverDo [] r slot c
    (fun _ _ _ => trivial) (List.prefix_refl _)
  rw [← hl, List.getElem?_append_left (List.getElem?_eq_some_iff.mp hp).1]
  exact hp

/-- **Handling a mail keeps the numbering.** -/
theorem Numbered.receive {n : Network} (h : Numbered n) {m : Mail} (hm : MailOk n m)
    (hdst : m.dst ∈ n.awake) : Numbered (n.run m.dst (receive m.src m.body)) := by
  obtain ⟨src, dst, body⟩ := m
  obtain ⟨f, hf, heq⟩ := receive_spec src (n.server dst) body
  rw [n.run_congr dst heq]
  cases hf with
  | clientId hid => exact ((numbered_carries dst).serve [] hid (fun _ _ _ => trivial) ⟨h, hdst⟩).1
  | clientHas => exact h.run_serverDoCreate _ _
  | clientAsk => exact h.run_askOthers hdst _ _
  | clientAlone =>
    rw [Network.run_andThen]
    exact h.run_useNumber.run_serverDoCreate _ _
  | requestMine =>
    simp only [execute, Network.run_andThen]
    exact ((numbered_carries dst).serverDo [] _ _ _ (fun _ _ _ => trivial)
      ⟨(h.run_sendReply hm true).run_exec _ _ _, hdst⟩).1
  | requestOther | createNo => exact h.run_sendReply hm false
  | createHas =>
    rw [Network.run_andThen]
    exact (h.run_sendReply hm true).run_serverDoCreate _ _
  | createAdopt =>
    rw [Network.run_andThen]
    exact (h.run_sendReply hm true).run_adopt _ _
  | replyNone | answer =>
    rw [Network.run_skip]
    exact h
  | replyYes => exact h.run_deletePendingRequest _
  | replyLast hid hfind hp =>
    simp only [execute, Network.run_andThen]
    exact ((numbered_carries dst).serverDo [] _ _ _ (fun _ _ _ => trivial)
      ⟨(h.run_countNo hp).run_exec _ _ _, hdst⟩).1.run_deletePendingRequest _
  | replyNo hid hfind hp | createReplyNo hid hread hfind hp => exact h.run_countNo hp
  | createReplyYes =>
    rw [Network.run_andThen]
    exact (h.run_deletePendingRequest _).run_dropNamed _
  | createReplyLast hid hread hfind hp =>
    simp only [Network.run_andThen, run_createNamed]
    exact ((((h.run_countNo hp).run_serverDoCreate _ _).run_deletePendingRequest _).run_createAll
      _).run_dropNamed _

/-- Fewer mails on their way. -/
theorem Numbered.withMails {n : Network} (h : Numbered n) {l : List Mail}
    (hl : ∀ m ∈ l, m ∈ n.mails) : Numbered (n.withMails l) :=
  ⟨h.netAddr, h.others, h.awake, h.awake_lt, h.lt, h.distinct,
    fun m hm => (h.mails m (hl m hm)).of_eq rfl rfl⟩

theorem Numbered.remove {n : Network} {l₁ l₂ : List Mail} {m : Mail} (h : Numbered n)
    (hmails : n.mails = l₁ ++ m :: l₂) : Numbered (n.withMails (l₁ ++ l₂)) :=
  h.withMails fun _ hm' => hmails ▸ mem_of_mem_remove hm'

/-- **Every step keeps the numbering.** -/
theorem numbered_step {n n' : Network} {op : Op} (h : Numbered n) (hstep : NetStep n op n') :
    Numbered n' := by
  cases netStep_spec hstep with
  | @send machine mailbox dst r hmachine hdst =>
    refine ⟨h.netAddr, h.others, h.awake, h.awake_lt, h.lt, h.distinct, fun m hm => ?_⟩
    rcases List.mem_append.mp hm with hm | hm
    · exact (h.mails m hm).of_eq rfl rfl
    · rw [List.mem_singleton.mp hm]
      exact hdst
  | @deliver _ m _ hmails hdst =>
    exact (h.remove hmails).receive ((h.mails m (hmails ▸ by simp)).of_eq rfl rfl) hdst
  | take hmails => exact h.remove hmails

end Nachos.Net

import Nachos.Net.Creating
import Nachos.Net.Polling

/-!
# One server for each name

A server creates a name when all others have said NO to one of its entries. Of two servers
that ask about the same name at the same time the lower one is to create it: it says YES to
the higher one, which gives way and says NO to the lower one.

The higher server does not look whether the lower one has already said NO to it. When it
has, both entries can collect NOs only, and both servers create the name. In all other runs
each name is at one server (`Agreed`): of two servers with entries for one name, one has not
had the NO of the other, and neither has a server the NO of one that has the name.
-/

namespace Nachos.Net

/-! ## Who has not said NO -/

/-- The mail is the question of `asker` to `asked` about its entry `requestID`, or a YES to
it. -/
def Mail.keepsOpen (asker requestID asked : Nat) (m : Mail) : Bool :=
  match m.body with
  | .request rid _ _ => decide (m.src = asker) && decide (m.dst = asked) && decide (rid = requestID)
  | .reply rid _ _ true =>
    decide (m.src = asked) && decide (m.dst = asker) && decide (rid = requestID)
  | _ => false

/-- `asked` has not said NO to the entry: the question or a YES is on its way. -/
def Undecided (mails : List Mail) (asker requestID asked : Nat) : Prop :=
  mails.any (Mail.keepsOpen asker requestID asked) = true

instance (mails : List Mail) (asker rid asked : Nat) :
    Decidable (Undecided mails asker rid asked) :=
  inferInstanceAs (Decidable (_ = _))

/-- When the mail is the question of a lower server about a name, that server has not said NO
to any entry that the server asked has for the name. -/
def Mail.GivesWay (n : Network) : Mail → Prop
  | ⟨src, dst, .request _ _ r⟩ =>
    r.nameless = false → hasNamed (n.server dst) r = false → src < dst →
      ∀ p ∈ (n.server dst).pendingRequests, 0 ≤ p.sentCount → r.sameCreate p.r = true →
        Undecided n.mails dst p.requestID src
  | _ => True

instance (n : Network) : (m : Mail) → Decidable (m.GivesWay n)
  | ⟨_, _, .request _ _ _⟩ => inferInstanceAs (Decidable (_ → _ → _ → ∀ _, _))
  | ⟨_, _, .client _ _⟩ | ⟨_, _, .reply _ _ _ _⟩ | ⟨_, _, .answer _ _⟩ => .isTrue trivial

/-- **A server gives way to a lower one** only as long as that one is to give it the name. -/
def GivesWay (n : Network) : Op → Prop
  | .deliver i => ∀ m ∈ n.mails[i]?, m.GivesWay n
  | .send _ _ _ _ | .take _ => True

instance (n : Network) : (op : Op) → Decidable (GivesWay n op)
  | .deliver _ => Option.decidableForallMem _
  | .send _ _ _ _ | .take _ => .isTrue trivial

theorem Undecided.mono {l l' : List Mail} {asker rid asked : Nat} (h : Undecided l asker rid asked)
    (hsub : ∀ m ∈ l, m ∈ l') : Undecided l' asker rid asked := by
  obtain ⟨m, hm, hopen⟩ := List.any_eq_true.mp h
  exact List.any_eq_true.mpr ⟨m, hsub m hm, hopen⟩

/-- A mail that keeps an entry open concerns it. -/
theorem concerns_of_keepsOpen {m : Mail} {asker rid asked : Nat}
    (h : m.keepsOpen asker rid asked = true) : m.concerns asker rid = true := by
  obtain ⟨src, dst, body⟩ := m
  cases body with
  | client | answer => cases h
  | request rid' c r =>
    simp only [Mail.keepsOpen, Mail.concerns, Bool.and_eq_true] at h ⊢
    exact ⟨h.1.1, h.2⟩
  | reply rid' c r response =>
    cases response with
    | false => cases h
    | true =>
      simp only [Mail.keepsOpen, Mail.concerns, Bool.and_eq_true] at h ⊢
      exact ⟨h.1.2, h.2⟩

/-! ## The invariant -/

/-- An entry that was sent to the other servers, for a create that has a name. -/
structure PendingRequest.Live (p : PendingRequest) : Prop where
  sent : 0 ≤ p.sentCount
  named : p.r.nameless = false

structure Agreed (n : Network) : Prop where
  /-- Names are at awake servers. -/
  awake : ∀ j r, hasNamed (n.server j) r = true → j ∈ n.awake
  /-- The empty name is created by a server that is alone. -/
  alone : ∀ j r, hasNamed (n.server j) r = true → r.nameless = true → (n.server j).others = []
  /-- So are entries. -/
  busy : ∀ j, ∀ p ∈ (n.server j).pendingRequests, p.Live → j ∈ n.awake
  /-- No name is at two servers. -/
  one : ∀ i j r, hasNamed (n.server i) r = true → hasNamed (n.server j) r = true → i = j
  /-- A server that has the name does not say NO. -/
  holder : ∀ s t, s ≠ t → ∀ p ∈ (n.server t).pendingRequests, p.Live →
    hasNamed (n.server s) p.r = true → Undecided n.mails t p.requestID s
  /-- Of two entries for one name, one has not had the NO of the other server. -/
  rivals : ∀ s t, s ≠ t → ∀ p ∈ (n.server t).pendingRequests, ∀ q ∈ (n.server s).pendingRequests,
    p.Live → q.Live → p.r.sameCreate q.r = true →
      Undecided n.mails t p.requestID s ∨ Undecided n.mails s q.requestID t

theorem agreed_init (up : Nat → Bool) : Agreed (.init up) := by
  have hnone : ∀ j r, hasNamed ((Network.init up).server j) r = false := by
    intro j r
    cases r <;> rfl
  refine ⟨fun j r h => ?_, fun j r h => ?_, fun j p hp => (List.not_mem_nil hp).elim,
    fun i j r h => ?_, fun s t hst p hp => (List.not_mem_nil hp).elim,
    fun s t hst p hp => (List.not_mem_nil hp).elim⟩
  all_goals
    rw [hnone] at h
    cases h

namespace Agreed

variable {n n' : Network}

/-- **What keeps the agreement**: no name is added, and the entries that are left were there
and are as open as before. -/
theorem keep (h : Agreed n) (hawake : n'.awake = n.awake)
    (hothers : ∀ j, (n'.server j).others = (n.server j).others)
    (hnames : ∀ j r, hasNamed (n'.server j) r = true → hasNamed (n.server j) r = true)
    (hpending : ∀ j, ∀ p ∈ (n'.server j).pendingRequests, p.Live →
      ∃ q ∈ (n.server j).pendingRequests, q.Live ∧ q.requestID = p.requestID ∧ q.r = p.r ∧
        ∀ s, Undecided n.mails j p.requestID s → Undecided n'.mails j p.requestID s) :
    Agreed n' where
  awake j r hr := hawake ▸ h.awake j r (hnames j r hr)
  alone j r hr hless := hothers j ▸ h.alone j r (hnames j r hr) hless
  busy j p hp hlive := by
    obtain ⟨q, hq, hqlive, -⟩ := hpending j p hp hlive
    exact hawake ▸ h.busy j q hq hqlive
  one i j r hi hj := h.one i j r (hnames i r hi) (hnames j r hj)
  holder s t hst p hp hlive hhas := by
    obtain ⟨q, hq, hqlive, hrid, hr, hopen⟩ := hpending t p hp hlive
    apply hopen
    rw [← hrid]
    exact h.holder s t hst q hq hqlive (hr ▸ hnames s p.r hhas)
  rivals s t hst p hp q hq hplive hqlive hsame := by
    obtain ⟨p₀, hp₀, hp₀live, hprid, hpr, hpopen⟩ := hpending t p hp hplive
    obtain ⟨q₀, hq₀, hq₀live, hqrid, hqr, hqopen⟩ := hpending s q hq hqlive
    rw [← hpr, ← hqr] at hsame
    have hrivals := h.rivals s t hst p₀ hp₀ q₀ hq₀ hp₀live hq₀live hsame
    rw [hprid, hqrid] at hrivals
    exact hrivals.imp (hpopen s) (hqopen t)

/-- Code that adds no name and no entry that it sends. -/
theorem run {i : Nat} {f : Act} (h : Agreed n)
    (hothers : (f (n.server i)).1.others = (n.server i).others)
    (hnames : ∀ r, hasNamed (f (n.server i)).1 r = true → hasNamed (n.server i) r = true)
    (hpending : ∀ p ∈ (f (n.server i)).1.pendingRequests, p.Live →
      ∃ q ∈ (n.server i).pendingRequests, q.Live ∧ q.requestID = p.requestID ∧ q.r = p.r) :
    Agreed (n.run i f) := by
  have hmails : ∀ m ∈ n.mails, m ∈ (n.run i f).mails := fun m hm => List.mem_append_left _ hm
  refine h.keep rfl (fun j => ?_) (fun j r hr => ?_) fun j p hp hlive => ?_
  all_goals by_cases hj : j = i
  · subst hj
    rw [Network.run_server_self, hothers]
  · rw [Network.run_server_of_ne _ _ _ hj]
  · subst hj
    rw [Network.run_server_self] at hr
    exact hnames r hr
  · rw [Network.run_server_of_ne _ _ _ hj] at hr
    exact hr
  · subst hj
    rw [Network.run_server_self] at hp
    obtain ⟨q, hq, hqlive, hrid, hr⟩ := hpending p hp hlive
    exact ⟨q, hq, hqlive, hrid, hr, fun s hopen => hopen.mono hmails⟩
  · rw [Network.run_server_of_ne _ _ _ hj] at hp
    exact ⟨p, hp, hlive, rfl, rfl, fun s hopen => hopen.mono hmails⟩

/-- Code that works on the pending requests only. -/
theorem run_same {i : Nat} {f : Act} (h : Agreed n)
    (hsame : SameTables (n.server i) (f (n.server i)).1)
    (hpending : ∀ p ∈ (f (n.server i)).1.pendingRequests, p.Live →
      ∃ q ∈ (n.server i).pendingRequests, q.Live ∧ q.requestID = p.requestID ∧ q.r = p.r) :
    Agreed (n.run i f) := by
  apply h.run hsame.others _ hpending
  intro r hr
  rw [hasNamed_of_tables hsame r] at hr
  exact hr

/-- A mail is taken out, and the entries are as open as before. -/
theorem remove {l₁ l₂ : List Mail} {m : Mail} (h : Agreed n) (hmails : n.mails = l₁ ++ m :: l₂)
    (hopen : ∀ j, ∀ p ∈ (n.server j).pendingRequests, p.Live → ∀ s,
      m.keepsOpen j p.requestID s = true → Undecided (l₁ ++ l₂) j p.requestID s) :
    Agreed (n.withMails (l₁ ++ l₂)) := by
  refine h.keep rfl (fun _ => rfl) (fun _ _ hr => hr) fun j p hp hlive =>
    ⟨p, hp, hlive, rfl, rfl, fun s hwas => ?_⟩
  obtain ⟨m', hm', hkeeps⟩ := List.any_eq_true.mp hwas
  rw [hmails] at hm'
  rcases List.mem_append.mp hm' with hm' | hm'
  · exact List.any_eq_true.mpr ⟨m', List.mem_append_left _ hm', hkeeps⟩
  · rcases List.mem_cons.mp hm' with rfl | hm'
    · exact hopen j p hp hlive s hkeeps
    · exact List.any_eq_true.mpr ⟨m', List.mem_append_right _ hm', hkeeps⟩

theorem run_serverDoCreate {i : Nat} (h : Agreed n) {r : Request} {c : Sender}
    (hnames : ∀ r', hasNamed (serverDoCreate r c (n.server i)).1 r' = true →
      hasNamed (n.server i) r' = true) : Agreed (n.run i (serverDoCreate r c)) := by
  refine h.run ?_ hnames fun p hp hlive => ⟨p, ?_, hlive, rfl, rfl⟩
  · rw [serverDoCreate_eq]
    exact (Quiet.createBody (A := fun _ => True) r c (n.server i)).others
  · rw [serverDoCreate_pending] at hp
    exact hp

/-- A create for a name that the server has adds no name. -/
theorem names_of_has {s : Server} {r : Request} {c : Sender} (hhas : hasNamed s r = true)
    (r' : Request) (h : hasNamed (serverDoCreate r c s).1 r' = true) : hasNamed s r' = true := by
  rcases hasNamed_serverDoCreate h with hold | hsame
  · exact hold
  · rw [hasNamed_congr hsame]
    exact hhas

theorem run_sendReply {i : Nat} (h : Agreed n) (src rid : Nat) (c : Sender) (r : Request)
    (response : Bool) : Agreed (n.run i (sendReply src rid c r response)) :=
  h.run_same ⟨rfl, rfl, rfl, rfl, rfl⟩ fun p hp hlive => ⟨p, hp, hlive, rfl, rfl⟩

/-- A new entry is open to all others. -/
theorem run_askOthers {i : Nat} (hn : Numbered n) (hi : i ∈ n.awake) (h : Agreed n) (c : Sender)
    (r : Request) :
    Agreed (n.run i (askOthers c r)) := by
  have hmails : ∀ m ∈ n.mails, m ∈ (n.run i (askOthers c r)).mails :=
    fun m hm => List.mem_append_left _ hm
  have hnew : ∀ s, s ≠ i → s ∈ n.awake →
      Undecided (n.run i (askOthers c r)).mails i (n.server i).pendingRequestCount s := by
    intro s hs hawake
    refine List.any_eq_true.mpr ⟨⟨i, s, .request (n.server i).pendingRequestCount c r⟩, ?_, ?_⟩
    · apply List.mem_append_right
      rw [askOthers, mailsOf_map]
      exact List.mem_map.mpr ⟨s, hn.mem_others.mpr ⟨hawake, hs⟩, rfl⟩
    · simp [Mail.keepsOpen]
  -- what is pending afterwards is an old entry, or the new one
  have hpending : ∀ j, ∀ p ∈ ((n.run i (askOthers c r)).server j).pendingRequests,
      p ∈ (n.server j).pendingRequests ∨ j = i ∧ p.requestID = (n.server i).pendingRequestCount := by
    intro j p hp
    by_cases hj : j = i
    · subst hj
      rw [Network.run_server_self] at hp
      rcases List.mem_append.mp hp with hp | hp
      · exact .inl hp
      · rw [List.mem_singleton.mp hp]
        exact .inr ⟨rfl, rfl⟩
    · rw [Network.run_server_of_ne _ _ _ hj] at hp
      exact .inl hp
  have hnames : ∀ j r', hasNamed ((n.run i (askOthers c r)).server j) r' =
      hasNamed (n.server j) r' := by
    intro j r'
    by_cases hj : j = i
    · subst hj
      rw [Network.run_server_self]
      exact hasNamed_of_tables ⟨rfl, rfl, rfl, rfl, rfl⟩ r'
    · rw [Network.run_server_of_ne _ _ _ hj]
  have hopen : ∀ {t rid s}, Undecided n.mails t rid s →
      Undecided (n.run i (askOthers c r)).mails t rid s := fun hwas => hwas.mono hmails
  refine ⟨fun j r' hr => h.awake j r' (hnames j r' ▸ hr), fun j r' hr hless => ?_,
    fun j p hp hlive => ?_, fun j j' r' hj hj' => h.one j j' r' (hnames j r' ▸ hj) (hnames j' r' ▸ hj'),
    fun s t hst p hp hlive hhas => ?_, fun s t hst p hp q hq hplive hqlive hsame => ?_⟩
  · have hwas := h.alone j r' (hnames j r' ▸ hr) hless
    by_cases hj : j = i
    · subst hj
      rw [Network.run_server_self]
      exact hwas
    · rw [Network.run_server_of_ne _ _ _ hj]
      exact hwas
  · rcases hpending j p hp with hold | ⟨rfl, -⟩
    · exact h.busy j p hold hlive
    · exact hi
  · rw [hnames] at hhas
    rcases hpending t p hp with hold | ⟨rfl, hrid⟩
    · exact hopen (h.holder s t hst p hold hlive hhas)
    · rw [hrid]
      exact hnew s hst (h.awake s p.r hhas)
  · rcases hpending t p hp with hold | ⟨rfl, hrid⟩
    · rcases hpending s q hq with hold' | ⟨rfl, hrid'⟩
      · exact (h.rivals s t hst p hold q hold' hplive hqlive hsame).imp hopen hopen
      · rw [hrid']
        exact .inr (hnew t hst.symm (h.busy t p hold hplive))
    · rw [hrid]
      rcases hpending s q hq with hold' | ⟨rfl, -⟩
      · exact .inl (hnew s hst (h.busy s q hold' hqlive))
      · exact absurd rfl hst

/-- **A NO to a question**: the server does not have the name, and its own entries are open
to the server that asked. -/
theorem remove_question {l₁ l₂ : List Mail} {s t rid : Nat} {c : Sender} {r : Request}
    (h : Agreed n) (hmails : n.mails = l₁ ++ ⟨s, t, .request rid c r⟩ :: l₂)
    (hasked : Asked n s t rid c r) (hhas : hasNamed (n.server t) r = false)
    (hopen : r.nameless = false → ∀ q ∈ (n.server t).pendingRequests, q.Live →
      r.sameCreate q.r = true → Undecided n.mails t q.requestID s) :
    Agreed (n.withMails (l₁ ++ l₂)) := by
  have htransfer : ∀ {j rid' s'}, Undecided n.mails j rid' s' →
      ¬ (j = s ∧ rid' = rid ∧ s' = t) → Undecided (l₁ ++ l₂) j rid' s' := by
    intro j rid' s' hwas hne
    obtain ⟨m, hm, hkeeps⟩ := List.any_eq_true.mp hwas
    rw [hmails] at hm
    rcases List.mem_append.mp hm with hm | hm
    · exact List.any_eq_true.mpr ⟨m, List.mem_append_left _ hm, hkeeps⟩
    · rcases List.mem_cons.mp hm with rfl | hm
      · simp only [Mail.keepsOpen, Bool.and_eq_true, decide_eq_true_eq] at hkeeps
        exact absurd ⟨hkeeps.1.1.symm, hkeeps.2.symm, hkeeps.1.2.symm⟩ hne
      · exact List.any_eq_true.mpr ⟨m, List.mem_append_right _ hm, hkeeps⟩
  -- an entry of `t` for the name is open to `s`, and stays so
  have hother : ∀ p ∈ (n.server s).pendingRequests, p.requestID = rid → p.Live →
      ∀ q ∈ (n.server t).pendingRequests, q.Live → p.r.sameCreate q.r = true →
        Undecided (l₁ ++ l₂) t q.requestID s := by
    intro p hp hrid hlive q hq hqlive hsame
    obtain ⟨-, hr⟩ := hasked.agree p hp hrid
    apply htransfer (hopen (hr ▸ hlive.named) q hq hqlive (hr ▸ hsame))
    rintro ⟨rfl, -, -⟩
    exact hasked.ne rfl
  refine ⟨h.awake, h.alone, h.busy, h.one, fun s' t' hst p hp hlive hhas' => ?_,
    fun s' t' hst p hp q hq hplive hqlive hsame => ?_⟩
  · apply htransfer (h.holder s' t' hst p hp hlive hhas')
    rintro ⟨rfl, hrid, rfl⟩
    obtain ⟨-, hr⟩ := hasked.agree p hp hrid
    change hasNamed (n.server s') p.r = true at hhas'
    rw [hr, hhas] at hhas'
    cases hhas'
  · rcases h.rivals s' t' hst p hp q hq hplive hqlive hsame with hwas | hwas
    · by_cases heq : t' = s ∧ p.requestID = rid ∧ s' = t
      · obtain ⟨rfl, hrid, rfl⟩ := heq
        exact .inr (hother p hp hrid hplive q hq hqlive hsame)
      · exact .inl (htransfer hwas heq)
    · by_cases heq : s' = s ∧ q.requestID = rid ∧ t' = t
      · obtain ⟨rfl, hrid, rfl⟩ := heq
        exact .inl (hother q hq hrid hqlive p hp hplive (sameCreate_symm hsame))
      · exact .inr (htransfer hwas heq)

/-- **The last NO**: an entry that is open to nobody is created, and all entries for its name
are given up. -/
theorem run_create {t : Nat} {f : Act} {p : PendingRequest} (h : Agreed n)
    (hp : p ∈ (n.server t).pendingRequests) (hlive : p.Live)
    (hclosed : ∀ s, ¬ Undecided n.mails t p.requestID s)
    (hothers : (f (n.server t)).1.others = (n.server t).others)
    (hnames : ∀ r, hasNamed (f (n.server t)).1 r = true →
      hasNamed (n.server t) r = true ∨ p.r.sameCreate r = true)
    (hpending : ∀ q ∈ (f (n.server t)).1.pendingRequests, q ∈ (n.server t).pendingRequests) :
    Agreed (n.run t f) := by
  have hmails : ∀ m ∈ n.mails, m ∈ (n.run t f).mails := fun m hm => List.mem_append_left _ hm
  have hopen : ∀ {j rid s}, Undecided n.mails j rid s → Undecided (n.run t f).mails j rid s :=
    fun hwas => hwas.mono hmails
  have hpending' : ∀ j, ∀ q ∈ ((n.run t f).server j).pendingRequests,
      q ∈ (n.server j).pendingRequests := by
    intro j q hq
    by_cases hj : j = t
    · subst hj
      rw [Network.run_server_self] at hq
      exact hpending q hq
    · rw [Network.run_server_of_ne _ _ _ hj] at hq
      exact hq
  have hnames' : ∀ j r, hasNamed ((n.run t f).server j) r = true →
      hasNamed (n.server j) r = true ∨ j = t ∧ p.r.sameCreate r = true := by
    intro j r hr
    by_cases hj : j = t
    · subst hj
      rw [Network.run_server_self] at hr
      exact (hnames r hr).imp_right fun hsame => ⟨rfl, hsame⟩
    · rw [Network.run_server_of_ne _ _ _ hj] at hr
      exact .inl hr
  -- nobody else has the name
  have hfirst : ∀ j r, p.r.sameCreate r = true → hasNamed (n.server j) r = true → j = t := by
    intro j r hsame hr
    by_contra hj
    rw [hasNamed_congr hsame] at hr
    exact hclosed j (h.holder j t hj p hp hlive hr)
  refine ⟨fun j r hr => ?_, fun j r hr hless => ?_, fun j q hq hqlive => ?_,
    fun i j r hi hj => ?_, fun s t' hst q hq hqlive hhas => ?_,
    fun s t' hst q hq q' hq' hqlive hqlive' hsame => ?_⟩
  · rcases hnames' j r hr with hold | ⟨rfl, -⟩
    · exact h.awake j r hold
    · exact h.busy j p hp hlive
  · rcases hnames' j r hr with hold | ⟨rfl, hsame⟩
    · have hwas := h.alone j r hold hless
      by_cases hj : j = t
      · subst hj
        rw [Network.run_server_self, hothers]
        exact hwas
      · rw [Network.run_server_of_ne _ _ _ hj]
        exact hwas
    · rw [nameless_congr hsame, hlive.named] at hless
      cases hless
  · exact h.busy j q (hpending' j q hq) hqlive
  · rcases hnames' i r hi with hold | ⟨heq, hsame⟩
    · rcases hnames' j r hj with hold' | ⟨heq', hsame'⟩
      · exact h.one i j r hold hold'
      · exact (hfirst i r hsame' hold).trans heq'.symm
    · rcases hnames' j r hj with hold' | ⟨heq', -⟩
      · exact heq.trans (hfirst j r hsame hold').symm
      · exact heq.trans heq'.symm
  · rcases hnames' s q.r hhas with hold | ⟨rfl, hsame⟩
    · exact hopen (h.holder s t' hst q (hpending' t' q hq) hqlive hold)
    · -- the rival has not had our NO, since we have all of its NOs
      rcases h.rivals t' s hst.symm p hp q (hpending' t' q hq) hlive hqlive hsame with hwas | hwas
      · exact absurd hwas (hclosed t')
      · exact hopen hwas
  · exact (h.rivals s t' hst q (hpending' t' q hq) q' (hpending' s q' hq') hqlive hqlive'
      hsame).imp hopen hopen

/-- A server that is alone has all the names. -/
theorem of_alone {i : Nat} (hawake : ∀ j ∈ n.awake, j = i) (hothers : (n.server i).others = [])
    (hnames : ∀ j r, hasNamed (n.server j) r = true → j ∈ n.awake)
    (hbusy : ∀ j, ∀ p ∈ (n.server j).pendingRequests, p.Live → j ∈ n.awake) : Agreed n where
  awake := hnames
  alone j r hr _ := by
    rw [hawake j (hnames j r hr)]
    exact hothers
  busy := hbusy
  one j j' r hj hj' := (hawake j (hnames j r hj)).trans (hawake j' (hnames j' r hj')).symm
  holder s t hst p hp hlive hhas :=
    absurd ((hawake s (hnames s _ hhas)).trans (hawake t (hbusy t p hp hlive)).symm) hst
  rivals s t hst p hp q hq hplive hqlive _ :=
    absurd ((hawake s (hbusy s q hq hqlive)).trans (hawake t (hbusy t p hp hplive)).symm) hst

/-- A server that is alone asks nobody. -/
theorem run_alone {i : Nat} (hn : Numbered n) (hi : i ∈ n.awake)
    (hothers : (n.server i).others = []) (h : Agreed n) (r : Request) (c : Sender) :
    Agreed (n.run i (useNumber.andThen (serverDoCreate r c))) := by
  have hawake : ∀ j ∈ n.awake, j = i := by
    intro j hj
    by_contra hne
    have hmem := hn.mem_others.mpr ⟨hj, hne⟩
    rw [hothers] at hmem
    cases hmem
  refine of_alone hawake ?_ (fun j r' hr => ?_) fun j p hp hlive => ?_
  · rw [Network.run_server_self, Act.andThen_apply, serverDoCreate_eq]
    exact (Quiet.createBody (A := fun _ => True) r c (useNumber (n.server i)).1).others.trans hothers
  · by_cases hj : j = i
    · exact hj ▸ hi
    · rw [Network.run_server_of_ne _ _ _ hj] at hr
      exact h.awake j r' hr
  · by_cases hj : j = i
    · exact hj ▸ hi
    · rw [Network.run_server_of_ne _ _ _ hj] at hp
      exact h.busy j p hp hlive

/-- **A YES to a question** keeps the entry open. -/
theorem run_yes {l₁ l₂ : List Mail} {src i rid : Nat} {c : Sender} {r : Request} (h : Agreed n)
    (hmails : n.mails = l₁ ++ ⟨src, i, .request rid c r⟩ :: l₂) :
    Agreed ((n.withMails (l₁ ++ l₂)).run i (sendReply src rid c r true)) := by
  have hmails' : (n.run i (sendReply src rid c r true)).mails =
      l₁ ++ ⟨src, i, .request rid c r⟩ :: (l₂ ++ [⟨i, src, .reply rid c r true⟩]) := by
    rw [Network.run_mails, hmails, List.append_assoc, List.cons_append]
    rfl
  have hremoved := (h.run_sendReply (i := i) src rid c r true).remove hmails' ?_
  · rw [← List.append_assoc] at hremoved
    exact hremoved
  · intro j p hp hlive s hkeeps
    refine List.any_eq_true.mpr ⟨⟨i, src, .reply rid c r true⟩, by simp, ?_⟩
    simp only [Mail.keepsOpen, Bool.and_eq_true, decide_eq_true_eq] at hkeeps ⊢
    exact ⟨⟨hkeeps.1.2, hkeeps.1.1⟩, hkeeps.2⟩

/-- A vote that counts for no entry is dropped. -/
theorem remove_reply {l₁ l₂ : List Mail} {src dst rid : Nat} {c : Sender} {r : Request}
    {response : Bool} (h : Agreed n)
    (hmails : n.mails = l₁ ++ ⟨src, dst, .reply rid c r response⟩ :: l₂)
    (hdone : response = true → ∀ p ∈ (n.server dst).pendingRequests, p.Live →
      p.requestID ≠ rid) : Agreed (n.withMails (l₁ ++ l₂)) := by
  refine h.remove hmails fun j p hp hlive s hkeeps => ?_
  cases response with
  | false => cases hkeeps
  | true =>
    simp only [Mail.keepsOpen, Bool.and_eq_true, decide_eq_true_eq] at hkeeps
    obtain ⟨⟨-, rfl⟩, hrid⟩ := hkeeps
    exact absurd hrid.symm (hdone rfl p hp hlive)

/-- One more NO makes no entry. -/
theorem run_countNo {i index : Nat} {p : PendingRequest} (h : Agreed n)
    (hp : (n.server i).pendingRequests[index]? = some p) :
    Agreed (n.run i (.update (countNo index p))) := by
  apply h.run_same ⟨rfl, rfl, rfl, rfl, rfl⟩
  intro q hq hlive
  rcases mem_set_cases hp hq with rfl | hq
  · exact ⟨p, List.mem_of_getElem? hp, ⟨hlive.sent, hlive.named⟩, rfl, rfl⟩
  · exact ⟨q, List.mem_of_mem_eraseIdx hq, hlive, rfl, rfl⟩

/-- **The vote that decides an entry**: it is created, and with it what is left for its
name. -/
theorem run_last {i index : Nat} {p : PendingRequest} {r' : Request} (h : Agreed n)
    (hp : (n.server i).pendingRequests[index]? = some p) (hlive : p.Live)
    (hsame : r'.sameCreate p.r = true) (hclosed : ∀ s, ¬ Undecided n.mails i p.requestID s) :
    Agreed (n.run i ((Act.update (countNo index p)).andThen ((serverDoCreate p.r p.c).andThen
      ((deletePendingRequest index).andThen (createNamed r'))))) := by
  let s₁ := (serverDoCreate p.r p.c (countNo index p (n.server i))).1
  let s₂ := (deletePendingRequest index s₁).1
  let l := s₂.pendingRequests.filter fun q => r'.sameCreate q.r
  let s₃ := (createAll l s₂).1
  have hl : ∀ q ∈ l, p.r.sameCreate q.r = true := fun q hq =>
    sameCreate_trans (sameCreate_symm hsame) (List.mem_filter.mp hq).2
  have hpending : s₃.pendingRequests = (n.server i).pendingRequests.eraseIdx index := by
    calc s₃.pendingRequests = s₂.pendingRequests := createAll_pending l s₂
      _ = s₁.pendingRequests.eraseIdx index := rfl
      _ = (countNo index p (n.server i)).pendingRequests.eraseIdx index := by
        rw [serverDoCreate_pending]
      _ = (n.server i).pendingRequests.eraseIdx index := List.eraseIdx_set_eq
  refine h.run_create (List.mem_of_getElem? hp) hlive hclosed ?_ (fun r hr => ?_) fun q hq => ?_
  · calc s₃.others = s₂.others := createAll_others l s₂
      _ = s₁.others := rfl
      _ = (countNo index p (n.server i)).others := by
        exact serverDoCreate_others p.r p.c _
      _ = (n.server i).others := rfl
  · have hcounted : SameTables (n.server i) (countNo index p (n.server i)) :=
      ⟨rfl, rfl, rfl, rfl, rfl⟩
    have hdeleted : SameTables s₁ s₂ := ⟨rfl, rfl, rfl, rfl, rfl⟩
    have hdropped : SameTables s₃ (dropNamed r' s₃).1 := ⟨rfl, rfl, rfl, rfl, rfl⟩
    have hr₃ := (hasNamed_of_tables hdropped r).symm.trans hr
    rcases hasNamed_createAll hl hr₃ with hr₂ | hnew
    · have hr₁ := (hasNamed_of_tables hdeleted r).symm.trans hr₂
      rcases hasNamed_serverDoCreate hr₁ with hr₀ | hnew
      · exact .inl ((hasNamed_of_tables hcounted r).symm.trans hr₀)
      · exact .inr hnew
    · exact .inr hnew
  · have hq₃ : q ∈ s₃.pendingRequests := (List.mem_filter.mp hq).1
    rw [hpending] at hq₃
    exact List.mem_of_mem_eraseIdx hq₃

/-- **Handling a mail keeps the agreement.** -/
theorem receive {l₁ l₂ : List Mail} {m : Mail} (hn : Numbered n)
    (hpolled : Polled (fun _ _ => False) n) (hcreates : OnlyCreates n) (h : Agreed n)
    (hmails : n.mails = l₁ ++ m :: l₂) (hdst : m.dst ∈ n.awake)
    (hways : GivesWay n (.deliver l₁.length)) :
    Agreed ((n.withMails (l₁ ++ l₂)).run m.dst (Net.receive m.src m.body)) := by
  have hn' : Numbered (n.withMails (l₁ ++ l₂)) := hn.remove hmails
  have hmem : m ∈ n.mails := hmails ▸ List.mem_append_right _ List.mem_cons_self
  have hok : MailOk n m := hn.mails m hmem
  have hnoid : m.body.Has fun _ r => r.id = none := hcreates.mails m hmem
  have hget : n.mails[l₁.length]? = some m := by simp [hmails]
  have hways := hways m hget
  obtain ⟨src, dst, body⟩ := m
  obtain ⟨f, hf, heq⟩ := receive_spec src ((n.withMails (l₁ ++ l₂)).server dst) body
  rw [Network.run_congr _ _ heq]
  have hclient : ∀ c r, body = .client c r → Agreed (n.withMails (l₁ ++ l₂)) := by
    rintro c r rfl
    refine h.remove hmails fun j p hp hlive s hkeeps => ?_
    cases hkeeps
  -- an entry that a reply is for
  have hfound : ∀ rid c r response r' response' index p, body = .reply rid c r response →
      r.id = none → r.reread response = (r', response') →
      findPending (n.server dst) c rid r' = some index →
      (n.server dst).pendingRequests[index]? = some p →
      p.c = c ∧ p.r = r ∧ p.requestID = rid ∧ r.nameless = false ∧ r' = r ∧
        response' = response := by
    rintro rid c r response r' response' index p rfl hid hread hfind hp
    exact reread_found hok hid hread hfind hp
  cases hf with
  | @clientId c r id hid =>
    have hnone : r.id = none := (read_id r).symm.trans hnoid
    cases hid.symm.trans hnone
  | clientHas hid hhas => exact (hclient _ _ rfl).run_serverDoCreate (names_of_has hhas)
  | clientAsk hid hhas hothers => exact (hclient _ _ rfl).run_askOthers hn' hdst _ _
  | clientAlone hid hhas hothers => exact (hclient _ _ rfl).run_alone hn' hdst hothers _ _
  | requestMine hid | requestOther hid | replyYes hid | replyLast hid | replyNo hid =>
    cases hid.symm.trans hnoid
  | createHas hid hhas =>
    rw [Network.run_andThen]
    refine (h.run_yes hmails).run_serverDoCreate fun r' hr' => ?_
    rw [Network.run_server_self] at hr' ⊢
    exact names_of_has hhas r' hr'
  | createAdopt hid hhas hpending hlower =>
    rw [Network.run_andThen]
    apply (h.run_yes hmails).run_same ⟨rfl, rfl, rfl, rfl, rfl⟩
    intro p hp hlive
    rcases List.mem_append.mp hp with hp | hp
    · exact ⟨p, hp, hlive, rfl, rfl⟩
    · -- the adopted entry is not sent
      rw [List.mem_singleton.mp hp] at hlive
      have hsent : (0 : Int) ≤ -1 := hlive.sent
      omega
  | createNo hid hhas hpending =>
    refine (h.remove_question hmails hok hhas fun hnamed q hq hqlive hsame => ?_).run_sendReply
      _ _ _ _ _
    have hsome : (findPendingNamed (n.server dst) _).isSome = true :=
      List.findIdx?_isSome.trans (List.any_eq_true.mpr ⟨q, hq, hsame⟩)
    have hle := hpending hsome
    rw [Network.withMails_server, hn.netAddr] at hle
    have hlower : src < dst := Nat.lt_of_le_of_ne hle hok.ne.symm
    exact hways hnamed hhas hlower q hq hqlive.sent hsame
  | @replyNone rid c r response hfind =>
    rw [Network.run_skip]
    refine h.remove_reply hmails fun _ p hp hlive hrid => ?_
    obtain ⟨rfl, rfl⟩ := hok.agree p hp hrid
    rw [reread_named hlive.named] at hfind
    exact findPending_ne_none hp (hrid ▸ hfind)
  | @createReplyYes rid c r response r' index p hid hread hfind hp =>
    obtain ⟨-, -, hrid, -⟩ := hfound _ _ _ _ _ _ _ _ rfl hid hread hfind hp
    rw [Network.run_withMails _ _ _ _ rfl]
    have hmails' : (n.run dst ((deletePendingRequest index).andThen (dropNamed r'))).mails =
        l₁ ++ ⟨src, dst, .reply rid c r response⟩ :: l₂ := by
      rw [Network.run_mails, hmails]
      exact List.append_nil _
    have hrun : Agreed (n.run dst ((deletePendingRequest index).andThen (dropNamed r'))) := by
      apply h.run_same ⟨rfl, rfl, rfl, rfl, rfl⟩
      intro q hq hlive
      exact ⟨q, List.mem_of_mem_eraseIdx (List.mem_filter.mp hq).1, hlive, rfl, rfl⟩
    refine hrun.remove_reply hmails' fun _ q hq _ heq => ?_
    rw [Network.run_server_self] at hq
    exact ne_of_mem_eraseIdx (hn.distinct dst) hp (List.mem_filter.mp hq).1 (heq.trans hrid.symm)
  | @createReplyLast rid c r response r' index p hid hread hfind hp hlast =>
    obtain ⟨-, rfl, hrid, hnamed, rfl, rfl⟩ := hfound _ _ _ _ _ _ _ _ rfl hid hread hfind hp
    have hlive : p.Live := ⟨by omega, hnamed⟩
    have hremoved := h.remove_reply hmails nofun
    refine hremoved.run_last hp hlive (sameCreate_refl hid) fun s hopen => ?_
    -- the NO was the last mail about the entry
    obtain ⟨m, hm, hkeeps⟩ := List.any_eq_true.mp hopen
    have hothers : 0 < (l₁ ++ l₂).countP (Mail.concerns dst p.requestID) :=
      List.countP_pos_iff.mpr ⟨m, hm, concerns_of_keepsOpen hkeeps⟩
    have hupper := hpolled.upper dst p (List.mem_of_getElem? hp) id hlive.sent
    rw [hmails, List.countP_append, List.countP_cons_of_pos (by simp [Mail.concerns, hrid])]
      at hupper
    rw [List.countP_append] at hothers
    omega
  | createReplyNo hid hread hfind hp hlast =>
    obtain ⟨-, -, -, -, -, rfl⟩ := hfound _ _ _ _ _ _ _ _ rfl hid hread hfind hp
    exact (h.remove_reply hmails nofun).run_countNo hp
  | answer =>
    rw [Network.run_skip]
    refine h.remove hmails fun j p hp hlive s hkeeps => ?_
    cases hkeeps

/-- **Every step keeps the agreement.** -/
theorem step {op : Op} (hn : Numbered n) (hpolled : Polled (fun _ _ => False) n)
    (hcreates : OnlyCreates n) (h : Agreed n) (hways : GivesWay n op) (hstep : NetStep n op n') :
    Agreed n' := by
  cases netStep_spec hstep with
  | send =>
    refine h.keep rfl (fun _ => rfl) (fun _ _ hr => hr) fun j p hp hlive =>
      ⟨p, hp, hlive, rfl, rfl, fun s hopen => hopen.mono fun m hm => List.mem_append_left _ hm⟩
  | deliver hmails hdst => exact h.receive hn hpolled hcreates hmails hdst hways
  | @take l₁ m l₂ hmails hdst =>
    refine h.remove hmails fun j p hp hlive s hkeeps => ?_
    have hok : MailOk n m := hn.mails m (hmails ▸ List.mem_append_right _ List.mem_cons_self)
    -- the mails between the servers are not taken by clients
    obtain ⟨src, dst, body⟩ := m
    cases body with
    | client | answer => cases hkeeps
    | request rid c r => exact absurd (hn.awake_lt _ hok.asked_awake) (Nat.not_lt.mpr hdst)
    | reply rid c r response =>
      exact absurd (hn.awake_lt _ hok.asker_awake) (Nat.not_lt.mpr hdst)

end Agreed

/-! ## Runs -/

/-- What holds in every state of a run of creates in which lower servers are given way to. -/
structure Agreeing (n : Network) : Prop where
  numbered : Numbered n
  polled : Polled (fun _ _ => False) n
  creates : OnlyCreates n
  agreed : Agreed n

theorem agreeing_init (up : Nat → Bool) : Agreeing (.init up) :=
  ⟨numbered_init up, polled_init up, onlyCreates_init up, agreed_init up⟩

theorem agreeing_step {n n' : Network} {op : Op} (h : Agreeing n)
    (hstep : Lib.Restrict (Lib.Restrict NetStep Creates) GivesWay n op n') : Agreeing n' := by
  obtain ⟨⟨hstep, hcreates⟩, hways⟩ := hstep
  exact ⟨numbered_step h.numbered hstep, polled_step h.numbered h.polled hstep,
    onlyCreates_step h.numbered h.creates hcreates hstep,
    h.agreed.step h.numbered h.polled h.creates hways hstep⟩

/-- **Each name is at one server**: no two servers have a lock, a condition variable or a
monitor variable of the same name. -/
theorem name_at_one_server {up : Nat → Bool} {n : Network}
    (h : Lib.Reachable (Lib.Restrict (Lib.Restrict NetStep Creates) GivesWay) (.init up) n)
    {i j : Nat} {r : Request} (hi : hasNamed (n.server i) r = true)
    (hj : hasNamed (n.server j) r = true) : i = j :=
  (h.invariant (agreeing_init up) fun _ _ _ => agreeing_step).agreed.one i j r hi hj

/-- Servers 0, 1 and 2. -/
def threeServers : Network := .init fun i => decide (i < 3)

/-- Servers 1 and 0 are asked for the same lock, and both ask the others before they hear of
each other. Server 0 takes over the create of server 1, and has the lock in the end. -/
def bothAsked : List Op :=
  [.send 5 0 1 (.createLock "a"), .send 6 0 0 (.createLock "a"), .deliver 0, .deliver 0,
    .deliver 0, .deliver 1, .deliver 0, .deliver 0, .deliver 0, .deliver 0, .deliver 1]

theorem name_at_one_server_bothAsked :
    ∃ n, Lib.Reachable (Lib.Restrict (Lib.Restrict NetStep Creates) GivesWay) threeServers n ∧
      hasNamed (n.server 0) (.createLock "a") = true ∧
      ∀ i, hasNamed (n.server i) (.createLock "a") = true → i = 0 := by
  have hrun : (Lib.execute (Lib.guarded (Lib.guarded Network.next Creates) GivesWay) threeServers
      bothAsked).any (fun n => hasNamed (n.server 0) (.createLock "a")) = true := by
    decide +kernel
  obtain ⟨n, hn, hhas⟩ := (Option.any_eq_true _ _).mp hrun
  have hreach := Lib.reachable_of_guarded restrict_creates hn
  exact ⟨n, hreach, hhas, fun i hi => name_at_one_server hreach hi hhas⟩

/-- Server 0 has said NO to server 1 before it is asked for the lock itself. Server 1 gives
way all the same: both servers create the lock. -/
def askedLater : List Op :=
  [.send 5 0 1 (.createLock "a"), .deliver 0, .deliver 0, .send 6 0 0 (.createLock "a"),
    .deliver 2, .deliver 1, .deliver 1, .deliver 0, .deliver 2, .deliver 0, .deliver 0,
    .deliver 1]

theorem name_at_two_servers :
    ∃ n, Lib.Reachable (Lib.Restrict (Lib.Restrict NetStep Creates) Fifo) threeServers n ∧
      hasNamed (n.server 0) (.createLock "a") = true ∧
      hasNamed (n.server 1) (.createLock "a") = true := by
  have hrun : (Lib.execute (Lib.guarded (Lib.guarded Network.next Creates) Fifo) threeServers
      askedLater).any (fun n => hasNamed (n.server 0) (.createLock "a") &&
        hasNamed (n.server 1) (.createLock "a")) = true := by
    decide +kernel
  obtain ⟨n, hn, hboth⟩ := (Option.any_eq_true _ _).mp hrun
  obtain ⟨hzero, hone⟩ := Bool.and_eq_true_iff.mp hboth
  exact ⟨n, Lib.reachable_of_guarded restrict_creates hn, hzero, hone⟩

end Nachos.Net

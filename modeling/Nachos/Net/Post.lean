import Nachos.Net.Lengths
import Nachos.Net.Sends

/-!
# The post office

`PostOffice::Send` of `network/post.cc` has two `ASSERT`s: what is sent fits into a mail, and
it is for one of the mailboxes there are. `Network.next` delivers whatever the servers hand to
the post office. Here (`Network.post`) the first text that does not pass stops its machine:
nothing after it is done, no mail reaches the machine any more, and a `Send` to it fails.

`Room` is the condition on a step under which everything passes: the number of the request
and its arguments leave room for the rest of the text. In a run of such steps nothing stops,
and each step is one of `NetStep` (`netStep_of_post`).
-/

namespace Nachos.Net

open Lib Lib.Stream

/-! ## What is sent -/

/-- The third argument of `new PostOffice` in `threads/system.cc`. -/
def numBoxes : Nat := 10

/-- The text of a reply to a client: the status, and the id or the value if there is one. -/
def answerText (a : Answer) : List Char := join (putNat a.status.toNat :: a.value.toList.map putInt)

def Body.text : Body → List Char
  | .client _ r => clientText r
  | .request requestID c r => requestText requestID c r
  | .reply requestID c r response => replyText requestID c r response
  | .answer _ a => answerText a

/-- The `mailHdr.to` of the mail. The servers read mailbox 0. -/
def Body.box : Body → Nat
  | .client _ _ | .request _ _ _ | .reply _ _ _ _ => 0
  | .answer c _ => c.mailbox

/-- The `ASSERT`s of `PostOffice::Send`. -/
def Body.passes (body : Body) : Bool := decide (Fits body.text) && decide (body.box < numBoxes)

/-- The machine goes on after this. -/
def Out.passes : Out → Bool
  | .mail _ body => body.passes
  | .crash => false
  | .exec _ _ _ | .nested _ _ | .enter _ _ | .leave _ _ => true

/-- The request is not for this server as far as it knows, so it asks the others. -/
def Server.sendsOn (s : Server) (r : Request) : Bool :=
  !hasNamed s r && (r.myIndex s).isNone

/-- What `sendPendingRequest` hands to the post office for the mail of a client. It tries all
the other machines, and so hands it over when none of them is awake, too. (So does a Release or
Acquire that the server starts for a waiting client. Its text has one number besides that of the
request, and always fits: `fits_nested`.) -/
def Body.asks (s : Server) : Body → Option Body
  | .client c r =>
    if s.sendsOn r.read then some (.request s.pendingRequestCount c r.read) else none
  | .request _ _ _ | .reply _ _ _ _ | .answer _ _ => none

/-! ## The system with its post office -/

/-- The machine of the server `i` stops after it has done what is in `out`. -/
def Network.stop (n : Network) (i : Nat) (out : List Out) : Network :=
  { n with
    awake := n.awake.filter (· ≠ i)
    server := fun j => { n.server j with others := (n.server j).others.filter (· ≠ i) }
    mails := n.mails ++ mailsOf i out
    log := n.log ++ out.map (i, ·) }

/-- A server handles a mail, and its machine stops at the first text that does not pass. -/
def Network.handle (n : Network) (m : Mail) : Network :=
  let out := (receive m.src m.body (n.server m.dst)).2
  if (m.body.asks (n.server m.dst)).all Body.passes then
    if out.all Out.passes then n.run m.dst (receive m.src m.body)
    else n.stop m.dst (out.takeWhile Out.passes)
  else n.stop m.dst []

/-- One step. A client whose text does not pass sends nothing. -/
def Network.post (n : Network) : Op → Option Network
  | .send machine mailbox dst r =>
    if (Body.client ⟨machine, mailbox, n.nextTag⟩ r).passes then
      n.next (.send machine mailbox dst r)
    else none
  | .deliver i =>
    match n.mails[i]? with
    | none => none
    | some m =>
      if m.dst ∈ n.awake then some ((n.withMails (n.mails.eraseIdx i)).handle m) else none
  | .take i => n.next (.take i)

def PostStep (n : Network) (op : Op) (n' : Network) : Prop := n.post op = some n'

/-! ## Room for a mail -/

/-- The numbers that the server may use while it handles one mail are `int`s: one for the mail
and one for each client that it wakes up. -/
def Server.Counts (s : Server) : Prop := FitsInt (s.pendingRequestCount + 1 + s.waiters : Nat)

instance (s : Server) : Decidable s.Counts := inferInstanceAs (Decidable (FitsInt _))

/-- The number and the arguments of the request in the mail leave room for the rest of what the
server sends about it: ten characters and the NUL in a request, two more in a reply. -/
def Body.Room (s : Server) : Body → Prop
  | .client _ r => s.sendsOn r.read = true →
    (putNat s.pendingRequestCount).length + r.read.argsLength ≤ 29
  | .request requestID _ r => (putNat requestID).length + r.argsLength ≤ 27
  | .reply _ _ _ _ | .answer _ _ => True

instance (s : Server) : (body : Body) → Decidable (body.Room s)
  | .client _ _ => inferInstanceAs (Decidable (_ → _))
  | .request _ _ _ => inferInstanceAs (Decidable (_ ≤ _))
  | .reply _ _ _ _ | .answer _ _ => .isTrue trivial

/-- The clients' calls are what the syscalls let through, and a mail that is delivered leaves
room. -/
def Room (n : Network) : Op → Prop
  | .send machine mailbox dst r => Calls n (.send machine mailbox dst r)
  | .deliver i => ∀ m ∈ n.mails[i]?, m.body.Room (n.server m.dst) ∧ (n.server m.dst).Counts
  | .take _ => True

instance (n : Network) : (op : Op) → Decidable (Room n op)
  | .send machine mailbox dst r =>
    inferInstanceAs (Decidable (Calls n (.send machine mailbox dst r)))
  | .deliver i => inferInstanceAs (Decidable (∀ m ∈ n.mails[i]?, _))
  | .take _ => .isTrue trivial

/-! ## The mails that are sent while a mail is handled -/

theorem sendsOn_id {r : Request} {id : Nat} (hid : r.id = some id) (s : Server) :
    s.sendsOn r = true ↔ owner id ≠ s.netAddr := by
  have hnamed : hasNamed s r = false := by
    cases r <;> first | rfl | cases hid
  rw [Server.sendsOn, hnamed, myIndex_eq hid]
  split <;> simp_all

theorem sendsOn_create {r : Request} (hid : r.id = none) (s : Server) :
    s.sendsOn r = true ↔ hasNamed s r = false := by
  have hindex : r.myIndex s = none := by
    cases r <;> first | rfl | cases hid
  rw [Server.sendsOn, hindex]
  simp

/-- A create sends nothing but answers. -/
theorem mem_serverDoCreate {r : Request} {c : Sender} {s : Server} {dst : Nat} {body : Body}
    (ho : .mail dst body ∈ (serverDoCreate r c s).2) : ∃ x a, body = .answer x a := by
  rw [serverDoCreate_eq] at ho
  rcases List.mem_append.mp ho with ho | ho
  · cases List.mem_singleton.mp ho
  · have hplain := (Quiet.createBody (A := fun _ => True) r c s).plain _ ho
    cases body with
    | answer x a => exact ⟨x, a, rfl⟩
    | client | request | reply => exact hplain.elim

theorem mem_createAll {l : List PendingRequest} {s : Server} {dst : Nat} {body : Body}
    (ho : .mail dst body ∈ (createAll l s).2) : ∃ x a, body = .answer x a := by
  induction l generalizing s with
  | nil => cases ho
  | cons p rest ih =>
    rcases List.mem_append.mp ho with ho | ho
    · exact mem_serverDoCreate ho
    · exact ih ho

/-- A mail that a server sends while it handles one is an answer, the request that it sends
on, the reply to the request that it handles, or a mail of the request that it runs. -/
theorem receive_mails {src dst : Nat} {body body' : Body} {s : Server}
    (ho : .mail dst body' ∈ (receive src body s).2) :
    (∃ c a, body' = .answer c a) ∨ body.asks s = some body' ∨
      (∃ k c r response, body = .request k c r ∧ body' = .reply k c r response) ∨
      ∃ index c r s₁, body.runs s = some (index, c, r) ∧ SameTables s s₁ ∧
        s₁.pendingRequestCount ≤ s.pendingRequestCount + 1 ∧
        .mail dst body' ∈ (serverDo r index c s₁).2 := by
  obtain ⟨f, hf, heq⟩ := receive_spec src s body
  rw [heq] at ho
  have hasked : ∀ {c : Sender} {r : Request}, .mail dst body' ∈ (askOthers c r s).2 →
      body' = .request s.pendingRequestCount c r := by
    intro c r ho
    obtain ⟨d, -, hd⟩ := List.mem_map.mp ho
    cases hd
    rfl
  have hreplied : ∀ {k : Nat} {c : Sender} {r : Request} {response : Bool},
      .mail dst body' ∈ (sendReply src k c r response s).2 → body' = .reply k c r response := by
    intro k c r response ho
    cases List.mem_singleton.mp ho
    rfl
  have hexec : ∀ {r : Request} {index : Option Nat} {c : Sender} {s₁ : Server},
      .mail dst body' ∈ (execute r index c s₁).2 →
        .mail dst body' ∈ (serverDo r index c s₁).2 := by
    intro r index c s₁ ho
    rcases List.mem_cons.mp ho with ho | ho
    · cases ho
    · exact ho
  cases hf with
  | @clientId c r id hid =>
    have hread : r.read = r := read_eq hid
    by_cases howner : owner id = s.netAddr
    · rw [serve_mine hid c howner] at ho
      exact .inr (.inr (.inr ⟨_, _, _, s, by simp [Body.runs, hid, howner],
        ⟨rfl, rfl, rfl, rfl, rfl⟩, Nat.le_succ _, hexec ho⟩))
    · by_cases hothers : s.others = []
      · rw [serve_alone hid c howner hothers] at ho
        have hrun : .mail dst body' ∈ (execute r none c (useNumber s).1).2 := ho
        exact .inr (.inr (.inr ⟨none, c, r, (useNumber s).1,
          by simp [Body.runs, hid, howner, hothers], ⟨rfl, rfl, rfl, rfl, rfl⟩, Nat.le_refl _,
          hexec hrun⟩))
      · rw [serve_away hid c howner hothers] at ho
        refine .inr (.inl ?_)
        rw [hasked ho, Body.asks, hread, if_pos ((sendsOn_id hid s).mpr howner)]
  | clientHas | clientAlone => exact .inl (mem_serverDoCreate ho)
  | @clientAsk c r hid hhas hothers =>
    refine .inr (.inl ?_)
    rw [hasked ho, Body.asks, if_pos ((sendsOn_create (by rw [read_id, hid]) s).mpr hhas)]
  | @requestMine k c r id hid howner =>
    rcases List.mem_append.mp ho with ho | ho
    · exact .inr (.inr (.inl ⟨k, c, r, true, rfl, hreplied ho⟩))
    · exact .inr (.inr (.inr ⟨_, _, _, s, by simp [Body.runs, hid, howner],
        ⟨rfl, rfl, rfl, rfl, rfl⟩, Nat.le_succ _, hexec ho⟩))
  | @requestOther k c r => exact .inr (.inr (.inl ⟨k, c, r, false, rfl, hreplied ho⟩))
  | @createNo k c r => exact .inr (.inr (.inl ⟨k, c, r, false, rfl, hreplied ho⟩))
  | @createHas k c r =>
    rcases List.mem_append.mp ho with ho | ho
    · exact .inr (.inr (.inl ⟨k, c, r, true, rfl, hreplied ho⟩))
    · exact .inl (mem_serverDoCreate ho)
  | @createAdopt k c r =>
    rcases List.mem_append.mp ho with ho | ho
    · exact .inr (.inr (.inl ⟨k, c, r, true, rfl, hreplied ho⟩))
    · cases ho
  | @replyLast k c r index p id hid hfind hp hlast =>
    simp only [Act.andThen_apply, Act.update_apply, List.nil_append, deletePendingRequest,
      List.append_nil] at ho
    exact .inr (.inr (.inr ⟨_, _, _, countNo index p s, by simp [Body.runs, hid, hfind, hp, hlast],
      ⟨rfl, rfl, rfl, rfl, rfl⟩, Nat.le_succ _, hexec ho⟩))
  | createReplyLast =>
    simp only [Act.andThen_apply, Act.update_apply, List.nil_append, deletePendingRequest,
      createNamed, dropNamed, List.append_nil] at ho
    rcases List.mem_append.mp ho with ho | ho
    · exact .inl (mem_serverDoCreate ho)
    · exact .inl (mem_createAll ho)
  | createReplyYes =>
    simp [deletePendingRequest, dropNamed] at ho
  | replyYes | replyNone | replyNo | createReplyNo | answer => cases ho

/-! ## What a run keeps -/

/-- What is known of a run of calls that the syscalls let through. -/
structure Fitted (n : Network) : Prop where
  within : Within n
  known : Known n
  small : ∀ e ∈ n.sent, e.1.Small
  ints : ∀ j, (n.server j).Ints

theorem fitted_init (up : Nat → Bool) : Fitted (.init up) where
  within := within_init up
  known := known_init up
  small _ h := by cases h
  ints _ := by
    refine ⟨Server.Intact.start _ _, fun mv hmv => ?_⟩
    cases hmv

theorem read_numbers (r : Request) : r.read.numbers = r.numbers := by
  cases r <;> rfl

theorem Fitted.numbers {n : Network} (h : Fitted n) {c : Sender} {r : Request}
    (hr : Claimed n.sent c r) (hnested : r.nestable = false) : ∀ z ∈ r.numbers, FitsInt z := by
  rcases hr with ⟨r₀, hsent, rfl⟩ | ⟨htrue, -⟩
  · rw [read_numbers]
    exact (h.within.calls _ hsent).numbers
  · rw [htrue] at hnested
    cases hnested

/-- The request that is run is the one that the mail is about. -/
theorem runs_has {P : Sender → Request → Prop} {body : Body} {s : Server} {index : Option Nat}
    {c : Sender} {r : Request} (hruns : body.runs s = some (index, c, r)) (h : body.Has P) :
    ∃ c', P c' r := by
  cases body with
  | client c' r' =>
    obtain ⟨id, hid, hruns⟩ := Option.bind_eq_some_iff.mp hruns
    have hr : r' = r := by
      split at hruns
      · cases hruns
        rfl
      · split at hruns <;> cases hruns
        rfl
    refine ⟨c', ?_⟩
    rw [← hr, ← read_eq hid]
    exact h
  | request k c' r' =>
    obtain ⟨id, hid, hruns⟩ := Option.bind_eq_some_iff.mp hruns
    split at hruns <;> cases hruns
    exact ⟨_, h⟩
  | reply k c' r' response =>
    cases response with
    | true => cases hruns
    | false =>
      obtain ⟨id, -, hruns⟩ := Option.bind_eq_some_iff.mp hruns
      obtain ⟨i, -, hruns⟩ := Option.bind_eq_some_iff.mp hruns
      obtain ⟨p, -, hruns⟩ := Option.bind_eq_some_iff.mp hruns
      split at hruns <;> cases hruns
      exact ⟨c', h⟩
  | answer => cases hruns

/-- The numbers of a request that is run. -/
theorem Fitted.runs {n : Network} (h : Fitted n) {m : Mail} (hm : m ∈ n.mails)
    {index : Option Nat} {c : Sender} {r : Request}
    (hruns : m.body.runs (n.server m.dst) = some (index, c, r)) (hnested : r.nestable = false) :
    ∀ z ∈ r.numbers, FitsInt z := by
  obtain ⟨c', hclaimed⟩ := runs_has hruns (h.known.handed.mails m hm)
  exact h.numbers hclaimed hnested

theorem fitted_step {n n' : Network} {op : Op} (h : Fitted n)
    (hstep : Restrict NetStep Calls n op n') : Fitted n' := by
  refine ⟨within_step h.within hstep, known_step h.known hstep.1, ?_, ?_⟩
  · obtain ⟨hstep, hcall⟩ := hstep
    cases netStep_spec hstep with
    | send =>
      intro e he
      rcases List.mem_append.mp he with he | he
      · exact h.small e he
      · rw [List.mem_singleton.mp he]
        exact ⟨hcall.1, hcall.2.1⟩
    | deliver | take => exact h.small
  · cases netStep_spec hstep.1 with
    | send | take => exact h.ints
    | @deliver l₁ m l₂ hmails hdst =>
      intro j
      by_cases hj : j = m.dst
      · subst hj
        rw [Network.run_server_self]
        have haddr : (n.server m.dst).netAddr < 5 := by
          rw [h.within.numbered.netAddr]
          exact h.within.numbered.awake_lt _ hdst
        refine (Tells.receive (fun index c r hruns hr => ?_) haddr (h.ints m.dst)).2.1
        refine h.runs (by simp [hmails]) hruns ?_
        cases r <;> first | rfl | cases hr
      · rw [Network.run_server_of_ne _ _ _ hj]
        exact h.ints j

/-! ## When everything passes -/

/-- A request of another server gets a reply. -/
theorem reply_mem_receive (src k : Nat) (c : Sender) (r : Request) (s : Server) :
    ∃ response, .mail src (.reply k c r response) ∈ (receive src (.request k c r) s).2 := by
  obtain ⟨f, hf, heq⟩ := receive_spec src s (.request k c r)
  rw [heq]
  cases hf with
  | requestMine | createHas | createAdopt =>
    exact ⟨true, List.mem_append_left _ (by simp [sendReply])⟩
  | requestOther | createNo => exact ⟨false, by simp [sendReply]⟩

theorem passes_iff_fits {body : Body} (hbox : body.box = 0) :
    body.passes = true ↔ Fits body.text := by
  simp [Body.passes, hbox, numBoxes]

theorem length_answerText {a : Answer} (ha : ∀ v ∈ a.value, FitsInt v) :
    (answerText a).length ≤ 13 := by
  have hstatus := length_putNat_bool a.status
  unfold answerText
  cases hv : a.value with
  | none =>
    simp only [Option.toList_none, List.map_nil, join]
    omega
  | some v =>
    have hvalue := length_putInt_int (ha v hv)
    simp only [Option.toList_some, List.map_cons, List.map_nil]
    rw [length_join_cons (List.cons_ne_nil _ _), join]
    omega

/-- A Release or Acquire that a server starts for a waiting client always fits. -/
theorem fits_nested {lockID k : Nat} (hlock : FitsInt lockID) (hk : FitsInt k) {c : Sender}
    (hc : c.Small) {r : Request} (hr : r = .acquire lockID ∨ r = .release lockID) :
    Fits (requestText k c r) := by
  have hnumber := length_putNat_int hk
  have hargs : r.argsLength ≤ 10 := by
    rcases hr with rfl | rfl <;> exact length_putNat_int hlock
  have hname : r.NoNul := by
    rcases hr with rfl | rfl <;> exact noNul_nestable rfl
  exact (fits_requestText hc hname k).mpr (by omega)

theorem fitsInt_zero : FitsInt (0 : Nat) := by
  decide

theorem eraseIdx_split {α : Type} (l₁ : List α) (a : α) (l₂ : List α) :
    (l₁ ++ a :: l₂).eraseIdx l₁.length = l₁ ++ l₂ := by
  rw [List.eraseIdx_append_of_length_le (Nat.le_refl _), Nat.sub_self]
  rfl

theorem netStep_deliver {n : Network} {l₁ l₂ : List Mail} {m : Mail}
    (hmails : n.mails = l₁ ++ m :: l₂) (hdst : m.dst ∈ n.awake) :
    NetStep n (.deliver l₁.length)
      ((n.withMails (l₁ ++ l₂)).run m.dst (receive m.src m.body)) := by
  have hget : n.mails[l₁.length]? = some m := by simp [hmails]
  unfold NetStep
  simp only [Network.next, hget, hdst, if_true, Network.withMails]
  rw [hmails, eraseIdx_split]

section Passes

variable {n : Network} (h : Fitted n) {l₁ l₂ : List Mail} {m : Mail}
  (hmails : n.mails = l₁ ++ m :: l₂)

include h hmails

/-- What is handed over for the mail passes exactly when it leaves room. -/
theorem asks_pass_iff : (m.body.asks (n.server m.dst)).all Body.passes = true ↔
    ∀ c r, m.body = .client c r → m.body.Room (n.server m.dst) := by
  have hm := h.within.handed.mails m (by simp [hmails])
  obtain ⟨src, dst, body⟩ := m
  cases body with
  | client c r =>
    have hfits := fits_requestText hm.1 hm.2 (n.server dst).pendingRequestCount
    simp only [Body.asks, Body.Room]
    by_cases hsends : (n.server dst).sendsOn r.read = true
    · rw [if_pos hsends, Option.all_some, passes_iff_fits rfl, Body.text, hfits]
      exact ⟨fun hroom _ _ _ _ => hroom, fun hroom => hroom c r rfl hsends⟩
    · rw [if_neg hsends]
      exact iff_of_true rfl fun _ _ _ htrue => absurd htrue hsends
  | request | reply | answer => exact iff_of_true rfl fun _ _ heq => by cases heq

/-- **A mail that leaves room**: everything that the server sends while it handles it passes. The
numbers of the requests that it starts for waiting clients are given apart. -/
theorem receive_passes (hdst : m.dst ∈ n.awake) (hroom : m.body.Room (n.server m.dst))
    (hnumbers : ∀ dst k c r,
      .mail dst (.request k c r) ∈ (receive m.src m.body (n.server m.dst)).2 →
        m.body.asks (n.server m.dst) = some (.request k c r) ∨ FitsInt k) :
    (receive m.src m.body (n.server m.dst)).2.all Out.passes = true := by
  have haddr : (n.server m.dst).netAddr < 5 := by
    rw [h.within.numbered.netAddr]
    exact h.within.numbered.awake_lt _ hdst
  have hints := h.ints m.dst
  have hmem : m ∈ n.mails := by simp [hmails]
  have htell : Tells (n.server m.dst) (receive m.src m.body (n.server m.dst)).2
      (receive m.src m.body (n.server m.dst)).1 :=
    Tells.receive fun index c r hruns hr =>
      h.runs hmem hruns (by cases r <;> first | rfl | cases hr)
  have htells := (htell haddr hints).2.2
  have hcrash := (Keeps.receive m.src m.body _ hints.intact).2
  -- the step as one of `NetStep`, whose invariants say who the mails are about
  have hstep : Restrict NetStep Calls n (.deliver l₁.length)
      ((n.withMails (l₁ ++ l₂)).run m.dst (receive m.src m.body)) :=
    ⟨netStep_deliver hmails hdst, trivial⟩
  have hafter := fitted_step h hstep
  have hlogged : ∀ o ∈ (receive m.src m.body (n.server m.dst)).2,
      (m.dst, o) ∈ ((n.withMails (l₁ ++ l₂)).run m.dst (receive m.src m.body)).log :=
    fun o ho => List.mem_append_right _ (List.mem_map.mpr ⟨o, ho, rfl⟩)
  refine List.all_eq_true.mpr fun o ho => ?_
  cases o with
  | exec | nested | enter | leave => rfl
  | crash => exact absurd ho hcrash
  | mail dst body =>
    have hhas := hafter.within.handed.log _ (hlogged _ ho)
    have hcases := receive_mails ho
    cases body with
    | client c r =>
      rcases hcases with ⟨_, _, heq⟩ | hasks | ⟨_, _, _, _, -, heq⟩ | ⟨index, c', r', s₁, -, -, -, ho⟩
      · cases heq
      · obtain ⟨src, d, body⟩ := m
        cases body <;> simp [Body.asks] at hasks
      · cases heq
      · rcases serverDo_mails ho with ⟨_, _, heq⟩ | ⟨_, _, _, heq, -⟩ <;> cases heq
    | request k c r =>
      refine (passes_iff_fits rfl).mpr ?_
      by_cases hasks : m.body.asks (n.server m.dst) = some (.request k c r)
      · have hpass := (asks_pass_iff h hmails).mpr fun _ _ _ => hroom
        rw [hasks, Option.all_some, passes_iff_fits rfl] at hpass
        exact hpass
      · have hk := (hnumbers dst k c r ho).resolve_left hasks
        rcases hcases with ⟨_, _, heq⟩ | hasks' | ⟨_, _, _, _, -, heq⟩ |
          ⟨index, c', r', s₁, hruns, -, -, ho⟩
        · cases heq
        · exact absurd hasks' hasks
        · cases heq
        · rcases serverDo_mails ho with ⟨_, _, heq⟩ | ⟨_, _, _, heq, -, hr⟩
          · cases heq
          · cases heq
            refine fits_nested ?_ hk hhas.1 hr
            -- only a request about a condition variable has a lock, and it is no nested one
            cases r' with
            | wait | signal | broadcast =>
              exact h.runs hmem hruns rfl _ (by simp [Request.numbers, Request.lock])
            | _ => exact fitsInt_zero
    | reply k c r response =>
      refine (passes_iff_fits rfl).mpr ((fits_replyText hhas.1 hhas.2 k response).mpr ?_)
      rcases hcases with ⟨_, _, heq⟩ | hasks | ⟨k', c', r', response', hbody, heq⟩ |
        ⟨index, c', r', s₁, -, -, -, ho⟩
      · cases heq
      · obtain ⟨src, d, body⟩ := m
        cases body <;> simp [Body.asks] at hasks
      · cases heq
        rw [hbody] at hroom
        exact hroom
      · rcases serverDo_mails ho with ⟨_, _, heq⟩ | ⟨_, _, _, heq, -⟩ <;> cases heq
    | answer c a =>
      obtain ⟨r, hsent, -⟩ := hafter.known.answered _ _ _ _ (hlogged _ ho)
      have hbox := (hafter.small _ hsent).2
      have hlength := length_answerText (htells dst c a ho)
      have hfits : Fits (answerText a) := by
        rw [fits_iff]
        omega
      simp only [Out.passes, Body.passes, Body.text, Body.box, numBoxes, hfits, decide_true,
        Bool.true_and]
      exact decide_eq_true hbox

/-- Where everything passes, the mail left room. -/
theorem room_of_passes (hasks : (m.body.asks (n.server m.dst)).all Body.passes = true)
    (hout : (receive m.src m.body (n.server m.dst)).2.all Out.passes = true) :
    m.body.Room (n.server m.dst) := by
  have hclient := (asks_pass_iff h hmails).mp hasks
  have hm := h.within.handed.mails m (by simp [hmails])
  obtain ⟨src, dst, body⟩ := m
  cases body with
  | client c r => exact hclient c r rfl
  | request k c r =>
    obtain ⟨response, ho⟩ := reply_mem_receive src k c r (n.server dst)
    have hpass := List.all_eq_true.mp hout _ ho
    exact (fits_replyText hm.1 hm.2 k response).mp ((passes_iff_fits rfl).mp hpass)
  | reply | answer => trivial

end Passes

theorem receive_numbers {src dst k : Nat} {body : Body} {s : Server} {c : Sender} {r : Request}
    (hcounts : s.Counts) (ho : .mail dst (.request k c r) ∈ (receive src body s).2) :
    body.asks s = some (.request k c r) ∨ FitsInt k := by
  rcases receive_mails ho with ⟨_, _, heq⟩ | hasks | ⟨_, _, _, _, -, heq⟩ |
    ⟨index, c', r', s₁, -, hsame, hcount, ho⟩
  · cases heq
  · exact .inl hasks
  · cases heq
  · rcases serverDo_mails ho with ⟨_, _, heq⟩ | ⟨_, _, _, heq, hk, -⟩
    · cases heq
    · cases heq
      have hwaiters : s₁.waiters = s.waiters := by rw [Server.waiters, hsame.CVs, Server.waiters]
      rw [hwaiters] at hk
      obtain ⟨-, hlt⟩ := hcounts
      refine .inr ⟨?_, ?_⟩
      · have hnat := Int.natCast_nonneg k
        omega
      · push_cast at hlt
        omega

/-! ## The steps -/

theorem handle_eq {n : Network} {m : Mail}
    (hasks : (m.body.asks (n.server m.dst)).all Body.passes = true)
    (hout : (receive m.src m.body (n.server m.dst)).2.all Out.passes = true) :
    n.handle m = n.run m.dst (receive m.src m.body) := by
  simp only [Network.handle, hasks, hout, if_true]

theorem not_mem_stop_awake (n : Network) (i : Nat) (out : List Out) :
    i ∉ (n.stop i out).awake := by
  simp [Network.stop]

theorem handle_awake_iff {n : Network} {m : Mail} (hdst : m.dst ∈ n.awake) :
    m.dst ∈ (n.handle m).awake ↔ (m.body.asks (n.server m.dst)).all Body.passes = true ∧
      (receive m.src m.body (n.server m.dst)).2.all Out.passes = true := by
  by_cases hasks : (m.body.asks (n.server m.dst)).all Body.passes = true
  · by_cases hout : (receive m.src m.body (n.server m.dst)).2.all Out.passes = true
    · rw [handle_eq hasks hout]
      exact iff_of_true hdst ⟨hasks, hout⟩
    · rw [Network.handle, if_pos hasks, if_neg hout]
      exact iff_of_false (not_mem_stop_awake _ _ _) fun h => hout h.2
  · rw [Network.handle, if_neg hasks]
    exact iff_of_false (not_mem_stop_awake _ _ _) fun h => hasks h.1

/-- **A server goes on exactly when the mail that it handles leaves room.** -/
theorem goes_on_iff {n : Network} (h : Fitted n) {m : Mail} (hm : m ∈ n.mails)
    (hdst : m.dst ∈ n.awake) (hcounts : (n.server m.dst).Counts) :
    m.dst ∈ (n.handle m).awake ↔ m.body.Room (n.server m.dst) := by
  obtain ⟨l₁, l₂, hmails⟩ := List.append_of_mem hm
  rw [handle_awake_iff hdst]
  constructor
  · rintro ⟨hasks, hout⟩
    exact room_of_passes h hmails hasks hout
  · intro hroom
    exact ⟨(asks_pass_iff h hmails).mpr fun _ _ _ => hroom,
      receive_passes h hmails hdst hroom fun _ _ _ _ ho => receive_numbers hcounts ho⟩

/-- **With room for every mail nothing stops**: a step is one of `NetStep`. -/
theorem netStep_of_post {n n' : Network} {op : Op} (h : Fitted n)
    (hstep : Restrict PostStep Room n op n') : Restrict NetStep Calls n op n' := by
  obtain ⟨hstep, hroom⟩ := hstep
  unfold PostStep at hstep
  cases op with
  | send machine mailbox dst r =>
    simp only [Network.post] at hstep
    split at hstep
    · exact ⟨hstep, hroom⟩
    · cases hstep
  | take i => exact ⟨hstep, trivial⟩
  | deliver i =>
    simp only [Network.post] at hstep
    cases hget : n.mails[i]? with
    | none => simp [hget] at hstep
    | some m =>
      obtain ⟨hm, hcounts⟩ := hroom m hget
      obtain ⟨l₁, l₂, hmails, rfl, herase⟩ := getElem?_split hget
      simp only [hget, herase] at hstep
      split at hstep
      · rename_i hdst
        cases hstep
        have hout := receive_passes h hmails hdst hm fun _ _ _ _ ho => receive_numbers hcounts ho
        rw [handle_eq (n := n.withMails (l₁ ++ l₂))
          ((asks_pass_iff h hmails).mpr fun _ _ _ => hm) hout]
        exact ⟨netStep_deliver hmails hdst, trivial⟩
      · cases hstep

/-- A run with room for every mail is one of `NetStep`. -/
theorem netPath_of_post {n n' : Network} {l : List Op} (h : Fitted n)
    (hpath : Path (Restrict PostStep Room) n l n') :
    Path (Restrict NetStep Calls) n l n' ∧ Fitted n' := by
  have hsim : ∀ s op s' t, s = t ∧ Fitted s → Restrict PostStep Room s op s' →
      ∃ t', Restrict NetStep Calls t op t' ∧ (s' = t' ∧ Fitted s') := by
    rintro s op s' t ⟨rfl, hs⟩ hstep
    have hnet := netStep_of_post hs hstep
    exact ⟨s', hnet, rfl, fitted_step hs hnet⟩
  obtain ⟨k, hnet, rfl, hk⟩ := hpath.refine (R := fun s t => s = t ∧ Fitted s) hsim ⟨rfl, h⟩
  exact ⟨hnet, hk⟩

theorem reachable_of_post {up : Nat → Bool} {n : Network}
    (h : Reachable (Restrict PostStep Room) (.init up) n) :
    Reachable (Restrict NetStep Calls) (.init up) n ∧ Fitted n := by
  obtain ⟨l, hpath⟩ := h
  obtain ⟨hnet, hn⟩ := netPath_of_post (fitted_init up) hpath
  exact ⟨⟨l, hnet⟩, hn⟩

end Nachos.Net

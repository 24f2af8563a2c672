import Nachos.Net.Effects

/-!
# Handling a mail

`Server()` has one branch per kind of request, and in each of them one branch per sender of
the mail. `ReceiveSpec` lists what the handling of a mail comes to, each case with the
conditions of the source under which it is taken; every invariant of the network is proved
over its cases.
-/

namespace Nachos.Net

/-- The request and the response that a server reads from a reply. -/
def Request.reread (response : Bool) : Request → Request × Bool
  | .createLock name => (.createLock (readReply name response).1, (readReply name response).2)
  | .createCondition name =>
    (.createCondition (readReply name response).1, (readReply name response).2)
  | .createMV name size => (.createMV (readReply name response).1 size, (readReply name response).2)
  | r => (r, response)

theorem reread_id (r : Request) (response : Bool) : (r.reread response).1.id = r.id := by
  cases r <;> rfl

/-- Keep a request of another server as a pending one that is never sent. -/
def adopt (c : Sender) (r : Request) : Act := .update fun s =>
  { s with
    pendingRequests := s.pendingRequests ++ [{ c := c, r := r, requestID := s.pendingRequestCount }]
    pendingRequestCount := s.pendingRequestCount + 1 }

theorem sameCreate_id {r r' : Request} (h : r.sameCreate r' = true) : r'.id = none := by
  cases r <;> cases r' <;> first | rfl | cases h

/-- The entry found for a reply to a create is a create. -/
theorem found_create {s : Server} {c : Sender} {rid index : Nat} {r r' : Request}
    {response response' : Bool} {p : PendingRequest} (hid : r.id = none)
    (hread : r.reread response = (r', response')) (hfind : findPending s c rid r' = some index)
    (hp : s.pendingRequests[index]? = some p) : p.r.id = none := by
  obtain ⟨q, hq, -, -, hkey⟩ := findPending_some hfind
  cases hp.symm.trans hq
  rw [sameKey_id hkey, ← hid, ← reread_id r response, hread]

/-- The entry found for a reply has its number. -/
theorem found_requestID {s : Server} {c : Sender} {rid index : Nat} {r : Request}
    {p : PendingRequest} (hfind : findPending s c rid r = some index)
    (hp : s.pendingRequests[index]? = some p) : p.requestID = rid := by
  obtain ⟨q, hq, hrid, -, -⟩ := findPending_some hfind
  cases hp.symm.trans hq
  exact hrid

/-- The cases of the handling of a mail from `src`, and the code that is run in each. -/
inductive ReceiveSpec (src : Nat) (s : Server) : Body → Act → Prop where
  | clientId {c r id} (hid : r.id = some id) : ReceiveSpec src s (.client c r) (serve c r)
  | clientHas {c r} (hid : r.id = none) (hhas : hasNamed s r.read = true) :
      ReceiveSpec src s (.client c r) (serverDoCreate r.read c)
  | clientAsk {c r} (hid : r.id = none) (hhas : hasNamed s r.read = false)
      (hothers : s.others ≠ []) : ReceiveSpec src s (.client c r) (askOthers c r.read)
  | clientAlone {c r} (hid : r.id = none) (hhas : hasNamed s r.read = false)
      (hothers : s.others = []) :
      ReceiveSpec src s (.client c r) (useNumber.andThen (serverDoCreate r.read c))
  | requestMine {rid c r id} (hid : r.id = some id) (howner : owner id = s.netAddr) :
      ReceiveSpec src s (.request rid c r)
        ((sendReply src rid c r true).andThen (execute r (some (id % 100)) c))
  | requestOther {rid c r id} (hid : r.id = some id) (howner : owner id ≠ s.netAddr) :
      ReceiveSpec src s (.request rid c r) (sendReply src rid c r false)
  | createHas {rid c r} (hid : r.id = none) (hhas : hasNamed s r = true) :
      ReceiveSpec src s (.request rid c r)
        ((sendReply src rid c r true).andThen (serverDoCreate r c))
  | createAdopt {rid c r} (hid : r.id = none) (hhas : hasNamed s r = false)
      (hpending : (findPendingNamed s r).isSome = true) (hlower : s.netAddr < src) :
      ReceiveSpec src s (.request rid c r) ((sendReply src rid c r true).andThen (adopt c r))
  | createNo {rid c r} (hid : r.id = none) (hhas : hasNamed s r = false)
      (hpending : (findPendingNamed s r).isSome = true → src ≤ s.netAddr) :
      ReceiveSpec src s (.request rid c r) (sendReply src rid c r false)
  | replyNone {rid c r response} (hfind : findPending s c rid (r.reread response).1 = none) :
      ReceiveSpec src s (.reply rid c r response) .skip
  | replyYes {rid c r index p id} (hid : r.id = some id)
      (hfind : findPending s c rid r = some index) (hp : s.pendingRequests[index]? = some p) :
      ReceiveSpec src s (.reply rid c r true) (deletePendingRequest index)
  | replyLast {rid c r index p id} (hid : r.id = some id)
      (hfind : findPending s c rid r = some index) (hp : s.pendingRequests[index]? = some p)
      (hlast : (p.noCount + 1 : Int) = p.sentCount) :
      ReceiveSpec src s (.reply rid c r false)
        ((Act.update (countNo index p)).andThen
          ((execute r (some id) p.c).andThen (deletePendingRequest index)))
  | replyNo {rid c r index p id} (hid : r.id = some id)
      (hfind : findPending s c rid r = some index) (hp : s.pendingRequests[index]? = some p)
      (hlast : (p.noCount + 1 : Int) ≠ p.sentCount) :
      ReceiveSpec src s (.reply rid c r false) (.update (countNo index p))
  | createReplyYes {rid c r response r' index p} (hid : r.id = none)
      (hread : r.reread response = (r', true)) (hfind : findPending s c rid r' = some index)
      (hp : s.pendingRequests[index]? = some p) :
      ReceiveSpec src s (.reply rid c r response)
        ((deletePendingRequest index).andThen (dropNamed r'))
  | createReplyLast {rid c r response r' index p} (hid : r.id = none)
      (hread : r.reread response = (r', false)) (hfind : findPending s c rid r' = some index)
      (hp : s.pendingRequests[index]? = some p) (hlast : (p.noCount + 1 : Int) = p.sentCount) :
      ReceiveSpec src s (.reply rid c r response)
        ((Act.update (countNo index p)).andThen ((serverDoCreate p.r p.c).andThen
          ((deletePendingRequest index).andThen (createNamed r'))))
  | createReplyNo {rid c r response r' index p} (hid : r.id = none)
      (hread : r.reread response = (r', false)) (hfind : findPending s c rid r' = some index)
      (hp : s.pendingRequests[index]? = some p) (hlast : (p.noCount + 1 : Int) ≠ p.sentCount) :
      ReceiveSpec src s (.reply rid c r response) (.update (countNo index p))
  | answer {c a} : ReceiveSpec src s (.answer c a) .skip

theorem receive_client (src : Nat) (s : Server) (c : Sender) (r : Request) :
    ∃ f, ReceiveSpec src s (.client c r) f ∧ receive src (.client c r) s = f s := by
  cases hid : r.id with
  | some id => exact ⟨_, .clientId hid, by rw [receive, read_eq hid]⟩
  | none =>
    have hserve : receive src (.client c r) s = serveCreate r.read c s := by
      rw [receive, serve_create (by rw [read_id, hid])]
    rw [hserve, serveCreate]
    cases hhas : hasNamed s r.read with
    | true => exact ⟨_, .clientHas hid hhas, rfl⟩
    | false =>
      by_cases hothers : s.others = []
      · exact ⟨_, .clientAlone hid hhas hothers, forward_alone hothers _ _ _⟩
      · exact ⟨_, .clientAsk hid hhas hothers, forward_away hothers _ _ _⟩

theorem receive_request (src : Nat) (s : Server) (rid : Nat) (c : Sender) (r : Request) :
    ∃ f, ReceiveSpec src s (.request rid c r) f ∧ receive src (.request rid c r) s = f s := by
  cases hid : r.id with
  | some id =>
    simp only [receive, hid, onRequest, myIndex_eq hid]
    by_cases howner : owner id = s.netAddr
    · exact ⟨_, .requestMine hid howner, by simp only [howner, if_true]⟩
    · exact ⟨_, .requestOther hid howner, by simp only [howner, if_false]⟩
  | none =>
    simp only [receive, hid, onCreateRequest]
    cases hhas : hasNamed s r with
    | true => exact ⟨_, .createHas hid hhas, rfl⟩
    | false =>
      cases hpending : (findPendingNamed s r).isSome with
      | true =>
        by_cases hlower : s.netAddr < src
        · exact ⟨_, .createAdopt hid hhas hpending hlower, by simp only [hlower, if_true]; rfl⟩
        · exact ⟨_, .createNo hid hhas (fun _ => Nat.not_lt.mp hlower),
            by simp only [hlower, if_false]; rfl⟩
      | false => exact ⟨_, .createNo hid hhas (by simp [hpending]), rfl⟩

theorem receive_createReply {src : Nat} {s : Server} {rid : Nat} {c : Sender} {r : Request}
    {response : Bool} (hid : r.id = none)
    (hreceive : receive src (.reply rid c r response) s =
      onCreateReply rid c (r.reread response).1 (r.reread response).2 s) :
    ∃ f, ReceiveSpec src s (.reply rid c r response) f ∧
      receive src (.reply rid c r response) s = f s := by
  rw [hreceive, onCreateReply]
  cases hfind : findPending s c rid (r.reread response).1 with
  | none => exact ⟨_, .replyNone hfind, rfl⟩
  | some index =>
    obtain ⟨p, hp, -⟩ := findPending_some hfind
    simp only [hp]
    cases hresponse : (r.reread response).2 with
    | true => exact ⟨_, .createReplyYes hid (Prod.ext rfl hresponse) hfind hp, rfl⟩
    | false =>
      by_cases hlast : (p.noCount + 1 : Int) = p.sentCount
      · exact ⟨_, .createReplyLast hid (Prod.ext rfl hresponse) hfind hp hlast,
          by simp only [hlast, if_true]; rfl⟩
      · exact ⟨_, .createReplyNo hid (Prod.ext rfl hresponse) hfind hp hlast,
          by simp only [hlast, if_false]; rfl⟩

theorem receive_reply (src : Nat) (s : Server) (rid : Nat) (c : Sender) (r : Request)
    (response : Bool) :
    ∃ f, ReceiveSpec src s (.reply rid c r response) f ∧
      receive src (.reply rid c r response) s = f s := by
  cases hid : r.id with
  | none => cases r <;> first | exact receive_createReply rfl rfl | cases hid
  | some id =>
    have hreceive : receive src (.reply rid c r response) s = onReply rid id c r response s := by
      cases r <;> cases hid <;> rfl
    have hread : r.reread response = (r, response) := by
      cases r <;> first | rfl | cases hid
    rw [hreceive, onReply]
    cases hfind : findPending s c rid r with
    | none => exact ⟨_, .replyNone (hread ▸ hfind), rfl⟩
    | some index =>
      obtain ⟨p, hp, -⟩ := findPending_some hfind
      simp only [hp]
      cases response with
      | true => exact ⟨_, .replyYes hid hfind hp, rfl⟩
      | false =>
        by_cases hlast : (p.noCount + 1 : Int) = p.sentCount
        · exact ⟨_, .replyLast hid hfind hp hlast, by simp only [hlast, if_true]; rfl⟩
        · exact ⟨_, .replyNo hid hfind hp hlast, by simp only [hlast, if_false]; rfl⟩

/-- **The handling of a mail is one of the cases of `ReceiveSpec`.** -/
theorem receive_spec (src : Nat) (s : Server) (body : Body) :
    ∃ f, ReceiveSpec src s body f ∧ receive src body s = f s := by
  cases body with
  | client c r => exact receive_client src s c r
  | request rid c r => exact receive_request src s rid c r
  | reply rid c r response => exact receive_reply src s rid c r response
  | answer c a => exact ⟨_, .answer, rfl⟩

/-! ## What handling a mail runs -/

/-- The tables and the identity of the server are as they were. -/
structure SameTables (s s' : Server) : Prop where
  netAddr : s'.netAddr = s.netAddr
  others : s'.others = s.others
  locks : s'.serverLocks = s.serverLocks
  CVs : s'.serverCVs = s.serverCVs
  MVs : s'.serverMVs = s.serverMVs

/-- Mails of the servers among themselves. -/
def Out.forwarded : Out → Prop
  | .mail _ (.request _ _ _) | .mail _ (.reply _ _ _ _) => True
  | _ => False

/-- The request with an id that the handling of a mail runs, with its table index and its
client: one for this server, one that no other server is awake for, or one that all others
have said NO to. -/
def Body.runs (s : Server) : Body → Option (Option Nat × Sender × Request)
  | .client c r => r.id.bind fun id =>
    if owner id = s.netAddr then some (some (id % 100), c, r)
    else if s.others = [] then some (none, c, r) else none
  | .request _ c r => r.id.bind fun id =>
    if owner id = s.netAddr then some (some (id % 100), c, r) else none
  | .reply rid c r false => r.id.bind fun id => (findPending s c rid r).bind fun index =>
    (s.pendingRequests[index]?).bind fun p =>
      if (p.noCount + 1 : Int) = p.sentCount then some (some id, p.c, r) else none
  | .reply _ _ _ true | .answer _ _ => none

/-- Whatever the globals are, the code leads from them to others that `R` allows. -/
def Act.Meets (R : Server → List Out → Server → Prop) (f : Act) : Prop :=
  ∀ s, R s (f s).2 (f s).1

section ReceiveRule

variable {R : Server → List Out → Server → Prop}
  (htrans : ∀ s o s₁ o₁ s₂, R s o s₁ → R s₁ o₁ s₂ → R s (o ++ o₁) s₂)
  (hnote : ∀ s out s', SameTables s s' → (∀ o ∈ out, o.forwarded) → R s out s')
  (hcreate : ∀ r c, r.id = none → (serverDoCreate r c).Meets R)

include htrans in
theorem Act.Meets.andThen {f g : Act} (hf : f.Meets R) (hg : g.Meets R) :
    (f.andThen g).Meets R :=
  fun s => htrans _ _ _ _ _ (hf s) (hg _)

include hnote in
theorem Act.Meets.update {u : Server → Server} (hu : ∀ s, SameTables s (u s)) :
    (Act.update u).Meets R :=
  fun s => hnote s [] (u s) (hu s) (by simp)

include hnote in
theorem Act.Meets.askOthers (c : Sender) (r : Request) : (askOthers c r).Meets R := by
  refine fun s => hnote _ _ _ ⟨rfl, rfl, rfl, rfl, rfl⟩ fun o ho => ?_
  obtain ⟨dst, -, rfl⟩ := List.mem_map.mp ho
  trivial

include hnote in
theorem Act.Meets.sendReply (src rid : Nat) (c : Sender) (r : Request) (response : Bool) :
    (sendReply src rid c r response).Meets R := by
  refine fun s => hnote s _ s ⟨rfl, rfl, rfl, rfl, rfl⟩ fun o ho => ?_
  rw [List.mem_singleton.mp ho]
  trivial

include htrans hnote hcreate in
theorem Act.Meets.createAll (l : List PendingRequest) (hl : ∀ p ∈ l, p.r.id = none) :
    (createAll l).Meets R := by
  induction l with
  | nil => exact fun s => hnote s [] s ⟨rfl, rfl, rfl, rfl, rfl⟩ (by simp)
  | cons p rest ih =>
    exact .andThen htrans (hcreate p.r p.c (hl p List.mem_cons_self))
      (ih fun q hq => hl q (List.mem_cons_of_mem p hq))

include htrans hnote hcreate in
theorem Act.Meets.createNamed (r : Request) : (createNamed r).Meets R := by
  intro s
  refine htrans _ _ _ _ _ (Act.Meets.createAll htrans hnote hcreate _ (fun p hp => ?_) s)
    (hnote _ [] _ ⟨rfl, rfl, rfl, rfl, rfl⟩ (by simp))
  exact sameCreate_id (List.mem_filter.mp hp).2

include htrans hnote in
theorem Act.Meets.serve {r : Request} {id : Nat} (hid : r.id = some id) (c : Sender)
    (hr : ∀ index, (execute r index c).Meets R) : (serve c r).Meets R := by
  intro s
  by_cases howner : owner id = s.netAddr
  · rw [serve_mine hid c howner]
    exact hr _ s
  · by_cases hothers : s.others = []
    · rw [serve_alone hid c howner hothers]
      have hnumber : useNumber.Meets R := .update hnote fun _ => ⟨rfl, rfl, rfl, rfl, rfl⟩
      exact Act.Meets.andThen htrans hnumber (hr none) s
    · rw [serve_away hid c howner hothers]
      exact Act.Meets.askOthers hnote c r s

include htrans hnote hcreate in
/-- **When no request with an id is run**, creates are, and the pending requests change. -/
theorem receive_idle (src : Nat) {body : Body} {s : Server} (h : body.runs s = none) :
    R s (receive src body s).2 (receive src body s).1 := by
  have hupdate : ∀ u : Server → Server, (∀ s, SameTables s (u s)) → (Act.update u).Meets R :=
    fun u hu => .update hnote hu
  have hdelete : ∀ index, (deletePendingRequest index).Meets R :=
    fun index => hupdate _ fun _ => ⟨rfl, rfl, rfl, rfl, rfl⟩
  have hcount : ∀ index p, (Act.update (countNo index p)).Meets R :=
    fun index p => hupdate _ fun _ => ⟨rfl, rfl, rfl, rfl, rfl⟩
  have hnumber : useNumber.Meets R := hupdate _ fun _ => ⟨rfl, rfl, rfl, rfl, rfl⟩
  have hadopt : ∀ c r, (adopt c r).Meets R :=
    fun c r => hupdate _ fun _ => ⟨rfl, rfl, rfl, rfl, rfl⟩
  have hdrop : ∀ r, (dropNamed r).Meets R :=
    fun r => hupdate _ fun _ => ⟨rfl, rfl, rfl, rfl, rfl⟩
  obtain ⟨f, hspec, heq⟩ := receive_spec src s body
  rw [heq]
  cases hspec with
  | @clientId c r id hid =>
    have haway : owner id ≠ s.netAddr ∧ s.others ≠ [] := by
      simp only [Body.runs, hid, Option.bind_some] at h
      split at h
      · cases h
      · split at h
        · cases h
        · exact ⟨‹_›, ‹_›⟩
    rw [serve_away hid c haway.1 haway.2]
    exact Act.Meets.askOthers hnote c r s
  | clientHas hid hhas => exact hcreate _ _ (by rw [read_id, hid]) s
  | clientAsk hid hhas hothers => exact Act.Meets.askOthers hnote _ _ s
  | clientAlone hid hhas hothers =>
    exact Act.Meets.andThen htrans hnumber (hcreate _ _ (by rw [read_id, hid])) s
  | requestMine hid howner => simp [Body.runs, hid, howner] at h
  | requestOther hid howner => exact Act.Meets.sendReply hnote _ _ _ _ _ s
  | createHas hid hhas =>
    exact Act.Meets.andThen htrans (.sendReply hnote _ _ _ _ _) (hcreate _ _ hid) s
  | createAdopt hid hhas hpending hlower =>
    exact Act.Meets.andThen htrans (.sendReply hnote _ _ _ _ _) (hadopt _ _) s
  | createNo hid hhas hpending => exact Act.Meets.sendReply hnote _ _ _ _ _ s
  | replyNone hfind => exact hupdate id (fun _ => ⟨rfl, rfl, rfl, rfl, rfl⟩) s
  | replyYes hid hfind hp => exact hdelete _ s
  | replyLast hid hfind hp hlast => simp [Body.runs, hid, hfind, hp, hlast] at h
  | replyNo hid hfind hp hlast => exact hcount _ _ s
  | createReplyYes hid hread hfind hp =>
    exact Act.Meets.andThen htrans (hdelete _) (hdrop _) s
  | createReplyLast hid hread hfind hp hlast =>
    exact Act.Meets.andThen htrans (hcount _ _)
      (.andThen htrans (hcreate _ _ (found_create hid hread hfind hp))
        (.andThen htrans (hdelete _) (.createNamed htrans hnote hcreate _))) s
  | createReplyNo hid hread hfind hp hlast => exact hcount _ _ s
  | answer => exact hupdate id (fun _ => ⟨rfl, rfl, rfl, rfl, rfl⟩) s

end ReceiveRule

/-- **When a request with an id is run**, a reply may be sent before it and the pending
requests change around it, and nothing else happens. -/
theorem receive_runs (src : Nat) {body : Body} {s : Server} {index : Option Nat} {c : Sender}
    {r : Request} (h : body.runs s = some (index, c, r)) :
    r.id ≠ none ∧ ∃ s₁ pre, SameTables s s₁ ∧ (∀ o ∈ pre, o.forwarded) ∧
      (receive src body s).2 = pre ++ (execute r index c s₁).2 ∧
      SameTables (execute r index c s₁).1 (receive src body s).1 := by
  have hsame : ∀ s : Server, SameTables s s := fun s => ⟨rfl, rfl, rfl, rfl, rfl⟩
  obtain ⟨f, hspec, heq⟩ := receive_spec src s body
  rw [heq]
  cases hspec with
  | @clientId c r id hid =>
    simp only [Body.runs, hid, Option.bind_some] at h
    split at h
    · rename_i howner
      cases h
      rw [serve_mine hid c howner]
      exact ⟨by simp [hid], s, [], hsame s, by simp, rfl, hsame _⟩
    · rename_i howner
      split at h
      · rename_i hothers
        cases h
        rw [serve_alone hid c howner hothers]
        exact ⟨by simp [hid], (useNumber s).1, [], ⟨rfl, rfl, rfl, rfl, rfl⟩, by simp, rfl,
          hsame _⟩
      · cases h
  | requestMine hid howner =>
    simp only [Body.runs, hid, Option.bind_some, howner, if_true] at h
    cases h
    refine ⟨by simp [hid], s, _, hsame s, fun o ho => ?_, rfl, hsame _⟩
    rw [List.mem_singleton.mp ho]
    trivial
  | @replyLast rid c r k p id hid hfind hp hlast =>
    simp only [Body.runs, hid, hfind, hp, Option.bind_some, hlast, if_true] at h
    cases h
    refine ⟨by simp [hid], countNo k p s, [], ⟨rfl, rfl, rfl, rfl, rfl⟩, by simp, ?_,
      ⟨rfl, rfl, rfl, rfl, rfl⟩⟩
    simp [deletePendingRequest]
  | requestOther hid howner => simp [Body.runs, hid, howner] at h
  | replyNo hid hfind hp hlast => simp [Body.runs, hid, hfind, hp, hlast] at h
  | clientHas hid | clientAsk hid | clientAlone hid | createHas hid | createAdopt hid
  | createNo hid => simp [Body.runs, hid] at h
  | @createReplyYes rid c r response _ _ _ hid | @createReplyLast rid c r response _ _ _ hid
  | @createReplyNo rid c r response _ _ _ hid => cases response <;> simp [Body.runs, hid] at h
  | @replyNone rid c r response hfind =>
    cases response with
    | true => cases h
    | false =>
      cases hid : r.id with
      | none => simp [Body.runs, hid] at h
      | some id =>
        have hread : (r.reread false).1 = r := by
          cases r <;> first | rfl | cases hid
        rw [hread] at hfind
        simp [Body.runs, hid, hfind] at h
  | replyYes | answer => cases h

/-- **The rule for the handling of a mail**: it runs requests, and in between it works on
the pending requests only. -/
theorem receive_rule {R : Server → List Out → Server → Prop}
    (htrans : ∀ s o s₁ o₁ s₂, R s o s₁ → R s₁ o₁ s₂ → R s (o ++ o₁) s₂)
    (hnote : ∀ s out s', SameTables s s' → (∀ o ∈ out, o.forwarded) → R s out s')
    (hcreate : ∀ r c, r.id = none → (serverDoCreate r c).Meets R)
    (hrun : ∀ r id index c, r.id = some id → (execute r index c).Meets R)
    (src : Nat) (body : Body) : (receive src body).Meets R := by
  intro s
  cases hruns : body.runs s with
  | none => exact receive_idle htrans hnote hcreate src hruns
  | some e =>
    obtain ⟨hid, s₁, pre, hbefore, hpre, hout, hafter⟩ := receive_runs src hruns
    obtain ⟨id, hid⟩ := Option.ne_none_iff_exists'.mp hid
    have hexec : R s (pre ++ (execute e.2.2 e.1 e.2.1 s₁).2) (execute e.2.2 e.1 e.2.1 s₁).1 :=
      htrans _ _ _ _ _ (hnote s pre s₁ hbefore hpre) (hrun _ _ _ _ hid s₁)
    have hlast := htrans _ _ _ _ _ hexec (hnote _ [] _ hafter (by simp))
    rw [List.append_nil, ← hout] at hlast
    exact hlast

end Nachos.Net

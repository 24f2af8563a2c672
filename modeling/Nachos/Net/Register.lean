import Nachos.Lib.History
import Nachos.Net.Delivery

/-!
# Monitor variables as registers

All Sets and Gets of a monitor variable are run at the server that owns it, one after
another. So the runs in the log are a total order, in which a call that was answered before
another one was sent comes first; each run is directly followed by its answer, and the
answers are those of an array of registers (`respond`).

The variable holds what the runs so far have written (`Held`). Two things could break this:
a create or a destroy could replace the variable, and a Set of another variable could hit
its slot. A create never takes a slot that is in use (`Created`); a Set hits the slot of
another variable only when the owner of its id is not awake.

Over the post office every call is answered as well, as long as the mails leave room
(`monitor_variable_atomic_answered`).
-/

namespace Nachos.Net

open Lib (Event history lastWrite Before Path Reachable Restrict)

/-! ## What a monitor variable answers -/

/-- The Sets and Gets of the variable. -/
def Request.onMV (id : Nat) : Request → Bool
  | .set MVID _ _ | .get MVID _ => decide (MVID = id)
  | _ => false

/-- The index and the value that a request writes. -/
def Request.writes : Request → Option (Nat × Int)
  | .set _ index value => some (index, value)
  | _ => none

/-- The value at the index after the calls: that of the last Set, or 0. -/
def valueAt (index : Nat) (before : List (Sender × Request)) : Int :=
  lastWrite Request.writes 0 index before

/-- What an array of `size` registers answers after the calls in `before`. -/
def respond (size : Nat) (before : List (Sender × Request)) : Request → Answer
  | .get _ index => if index < size then ⟨true, some (valueAt index before)⟩ else ⟨false, some 0⟩
  | .set _ index _ => { status := decide (index < size) }
  | _ => { status := false }

/-- The client sent a Set or a Get of the variable. -/
def isClient (sent : List (Sender × Request)) (id : Nat) (x : Sender) : Bool :=
  sent.any fun e => decide (e.1 = x) && e.2.onMV id

/-- What is seen of the variable: a run of a Set or Get of it, or an answer to a client that
sent one. -/
def eventOf (sent : List (Sender × Request)) (id : Nat) :
    Nat × Out → Option (Event Sender Request Answer)
  | (_, .exec _ c r) => if r.onMV id then some (.ran c r) else none
  | (_, .mail _ (.answer c a)) => if isClient sent id c then some (.told c a) else none
  | _ => none

/-- The history of the variable. -/
def events (sent : List (Sender × Request)) (id : Nat) (log : List (Nat × Out)) :
    List (Event Sender Request Answer) :=
  log.filterMap (eventOf sent id)

/-- The Sets and Gets of the variable that were run, in order. -/
def accesses (id : Nat) (log : List (Nat × Out)) : List (Sender × Request) :=
  log.filterMap fun
    | (_, .exec _ c r) => if r.onMV id then some (c, r) else none
    | _ => none

@[simp] theorem events_append (sent : List (Sender × Request)) (id : Nat) (l₁ l₂ : List (Nat × Out)) :
    events sent id (l₁ ++ l₂) = events sent id l₁ ++ events sent id l₂ :=
  List.filterMap_append

@[simp] theorem accesses_append (id : Nat) (l₁ l₂ : List (Nat × Out)) :
    accesses id (l₁ ++ l₂) = accesses id l₁ ++ accesses id l₂ :=
  List.filterMap_append

/-- The server of the id has a variable at its slot. -/
def Network.MV? (n : Network) (id : Nat) : Option ServerMV :=
  (n.server (owner id)).serverMVs.get? (some (id % 100))

theorem onMV_isMV {id : Nat} {r : Request} (h : r.onMV id = true) : r.isMV = true := by
  cases r <;> first | rfl | cases h

theorem onMV_id {id : Nat} {r : Request} (h : r.onMV id = true) : r.id = some id := by
  cases r <;> first | exact congrArg some (of_decide_eq_true h) | cases h

/-! ## Creates -/

/-- Live variables kept their size and values, and new ones hold zeros. -/
def Created (t t' : Table ServerMV) : Prop :=
  ∀ i, (∀ m, t.get? (some i) = some m → ∃ m', t'.get? (some i) = some m' ∧ m'.size = m.size ∧
      m'.v = m.v) ∧
    (t.get? (some i) = none → ∀ m', t'.get? (some i) = some m' → m'.v = List.replicate m'.size 0)

theorem Created.refl (t : Table ServerMV) : Created t t := by
  intro i
  refine ⟨fun m hm => ⟨m, hm, rfl, rfl⟩, fun hnone m' hm' => ?_⟩
  rw [hnone] at hm'
  cases hm'

theorem Created.trans {t₁ t₂ t₃ : Table ServerMV} (h₁ : Created t₁ t₂) (h₂ : Created t₂ t₃) :
    Created t₁ t₃ := by
  intro i
  constructor
  · intro m hm
    obtain ⟨m₂, hm₂, hsize₂, hv₂⟩ := (h₁ i).1 m hm
    obtain ⟨m₃, hm₃, hsize₃, hv₃⟩ := (h₂ i).1 m₂ hm₂
    exact ⟨m₃, hm₃, hsize₃.trans hsize₂, hv₃.trans hv₂⟩
  · intro hnone m₃ hm₃
    cases hm₂ : t₂.get? (some i) with
    | none => exact (h₂ i).2 hm₂ m₃ hm₃
    | some m₂ =>
      -- made by the first part, kept by the second
      have hzero := (h₁ i).2 hnone m₂ hm₂
      obtain ⟨m, hm, hsize, hv⟩ := (h₂ i).1 m₂ hm₂
      cases hm₃.symm.trans hm
      rw [hv, hsize]
      exact hzero

theorem created_createMV {s : Server} (h : s.Intact) (name : String) (size : Nat) :
    Created s.serverMVs (createMV name size s).1.serverMVs := by
  unfold createMV
  split
  · show Created s.serverMVs (s.serverMVs.insert _).1
    generalize hinsert : s.serverMVs.insert
      { name := name, size := size, v := List.replicate size 0 } = res
    cases hinsert ▸ h.MVs.ok.insert _ with
    | full => exact Created.refl _
    | @new t' k hfree hself hother hok =>
      intro i
      by_cases hi : i = k
      · subst hi
        refine ⟨fun m hm => ?_, fun _ m' hm' => ?_⟩
        · rw [hfree] at hm
          cases hm
        · cases hself.symm.trans hm'
          rfl
      · rw [hother i hi]
        exact Created.refl _ i
  · split
    · rename_i k _ _ m hm
      split
      · exact Created.refl _
      · show Created s.serverMVs (s.serverMVs.put _ _)
        intro i
        by_cases hi : (some k : Option Nat) = some i
        · rw [← hi, Table.get?_put_self hm]
          refine ⟨fun m₁ hm₁ => ?_, fun hnone => ?_⟩
          · cases hm.symm.trans hm₁
            exact ⟨_, rfl, rfl, rfl⟩
          · rw [hnone] at hm
            cases hm
        · rw [Table.get?_put_of_ne hi]
          exact Created.refl _ i
    · exact Created.refl _

/-- Creating a lock or a condition variable leaves the monitor variables alone. -/
theorem created_serverDoCreate {s : Server} (h : s.Intact) (r : Request) (c : Sender) :
    Created s.serverMVs (serverDoCreate r c s).1.serverMVs := by
  cases r with
  | createLock name =>
    have hMVs : (createLockNamed name s).1.serverMVs = s.serverMVs := by
      unfold createLockNamed
      split
      · rfl
      · split <;> rfl
    show Created s.serverMVs (createLockNamed name s).1.serverMVs
    rw [hMVs]
    exact Created.refl _
  | createCondition name =>
    have hMVs : (createCVNamed name s).1.serverMVs = s.serverMVs := by
      unfold createCVNamed
      split
      · rfl
      · split <;> rfl
    show Created s.serverMVs (createCVNamed name s).1.serverMVs
    rw [hMVs]
    exact Created.refl _
  | createMV name size => exact created_createMV h name size
  | _ => exact Created.refl _

/-- **When no request with an id is run**, variables are only created, and the requests that
are run are creates. -/
theorem receive_created (src : Nat) {body : Body} {s : Server} (hs : s.Intact)
    (h : body.runs s = none) : Created s.serverMVs (receive src body s).1.serverMVs ∧
      ∀ index x r, Out.exec index x r ∈ (receive src body s).2 → r.id = none := by
  have hidle := receive_idle (R := fun s out s' => s.Intact → s'.Intact ∧
    Created s.serverMVs s'.serverMVs ∧ ∀ index x r, Out.exec index x r ∈ out → r.id = none)
    ?_ ?_ ?_ src h hs
  · exact hidle.2
  · intro s o s₁ o₁ s₂ h₁ h₂ hs
    obtain ⟨hs₁, hcreated₁, hexec₁⟩ := h₁ hs
    obtain ⟨hs₂, hcreated₂, hexec₂⟩ := h₂ hs₁
    refine ⟨hs₂, hcreated₁.trans hcreated₂, fun index x r ho => ?_⟩
    rcases List.mem_append.mp ho with ho | ho
    · exact hexec₁ index x r ho
    · exact hexec₂ index x r ho
  · intro s out s' hsame hout hs
    refine ⟨(Keeps.note s out s' hsame hout hs).1, ?_, fun index x r ho => absurd (hout _ ho) id⟩
    rw [hsame.MVs]
    exact Created.refl _
  · intro r c hr s hs
    refine ⟨(Keeps.create r c s hs).1, created_serverDoCreate hs r c, fun index x r' ho => ?_⟩
    rw [serverDoCreate_eq] at ho
    rcases List.mem_append.mp ho with ho | ho
    · cases List.mem_singleton.mp ho
      exact hr
    · exact absurd ((Quiet.createBody (A := fun _ => True) r c s).plain _ ho) id

/-! ## Runs -/

/-- A request never fills a slot. -/
theorem serverDo_slot_none {s : Server} {i : Nat} (h : s.serverMVs.get? (some i) = none)
    (r : Request) (index : Option Nat) (c : Sender) :
    (serverDo r index c s).1.serverMVs.get? (some i) = none := by
  have hput : ∀ {k : Option Nat} {m m' : ServerMV}, s.serverMVs.get? k = some m →
      (s.serverMVs.put k m').get? (some i) = none := by
    intro k m m' hm
    rw [Table.get?_put_of_ne]
    · exact h
    · rintro rfl
      rw [h] at hm
      cases hm
  cases hr : r.isMV with
  | false =>
    rw [(Told.serverDo (B := fun _ => True) hr index trivial s).MVs]
    exact h
  | true =>
    cases r with
    | set MVID k value =>
      simp only [serverDo, serverDoSet]
      split
      · exact h
      · rename_i m hm
        split
        · exact hput hm
        · exact h
    | get MVID k =>
      simp only [serverDo, serverDoGet]
      split
      · exact h
      · split <;> exact h
    | destroyMV MVID =>
      simp only [serverDo, serverDoDestroyMV]
      split
      · exact h
      · rename_i m hm
        split
        · show (s.serverMVs.remove index).get? (some i) = none
          by_cases hi : index = some i
          · rw [hi, Table.get?_remove_self]
          · rw [Table.get?_remove_of_ne hi]
            exact h
        · exact hput hm
    | _ => cases hr

/-- A request that is no Set at the slot leaves the values there alone. -/
theorem serverDo_slot_other {s : Server} {i : Nat} {m m' : ServerMV} {r : Request}
    {index : Option Nat} {c : Sender} (hm : s.serverMVs.get? (some i) = some m)
    (hother : ∀ MVID k value, r = .set MVID k value → index ≠ some i)
    (hm' : (serverDo r index c s).1.serverMVs.get? (some i) = some m') :
    m'.size = m.size ∧ m'.v = m.v := by
  have hsame : s.serverMVs.get? (some i) = some m' → m'.size = m.size ∧ m'.v = m.v := by
    intro h
    cases hm.symm.trans h
    exact ⟨rfl, rfl⟩
  cases hr : r.isMV with
  | false =>
    rw [(Told.serverDo (B := fun _ => True) hr index trivial s).MVs] at hm'
    exact hsame hm'
  | true =>
    cases r with
    | set MVID k value =>
      have hne := hother MVID k value rfl
      simp only [serverDo, serverDoSet] at hm'
      split at hm'
      · exact hsame hm'
      · split at hm'
        · refine hsame ?_
          rw [← hm']
          exact (Table.get?_put_of_ne hne _).symm
        · exact hsame hm'
    | get MVID k =>
      simp only [serverDo, serverDoGet] at hm'
      split at hm'
      · exact hsame hm'
      · split at hm' <;> exact hsame hm'
    | destroyMV MVID =>
      simp only [serverDo, serverDoDestroyMV] at hm'
      split at hm'
      · exact hsame hm'
      · rename_i m₁ hm₁
        split at hm'
        · exact hsame (Table.get?_remove_cases hm').2
        · rcases Table.get?_put_cases hm' with ⟨rfl, rfl⟩ | ⟨-, hold⟩
          · cases hm₁.symm.trans hm
            exact ⟨rfl, rfl⟩
          · exact hsame hold
    | _ => cases hr

/-- What a live variable answers to a Set or Get. -/
def ServerMV.answer (m : ServerMV) : Request → Answer
  | .get _ index => if index < m.size then ⟨true, some (m.v.getD index 0)⟩ else ⟨false, some 0⟩
  | .set _ index _ => { status := decide (index < m.size) }
  | _ => { status := false }

/-- The values of a live variable after a Set or Get. -/
def ServerMV.after (m : ServerMV) (r : Request) : List Int :=
  r.writes.elim m.v fun w => if w.1 < m.size then m.v.set w.1 w.2 else m.v

/-- **A Set or Get at the slot** changes at most the value it writes, and answers its client. -/
theorem serverDo_slot_access {s : Server} {i : Nat} {m : ServerMV} {id : Nat} {r : Request}
    (hm : s.serverMVs.get? (some i) = some m) (hr : r.onMV id = true) (c : Sender) :
    ∃ m', (serverDo r (some i) c s).1.serverMVs.get? (some i) = some m' ∧ m'.size = m.size ∧
      m'.v = m.after r ∧
      (serverDo r (some i) c s).2 = [.mail c.machine (.answer c (m.answer r))] := by
  cases r with
  | set MVID k value =>
    simp only [serverDo, serverDoSet, hm, ServerMV.after, ServerMV.answer, Request.writes,
      Option.elim_some]
    by_cases hk : k < m.size
    · simp only [hk, if_true, decide_true]
      exact ⟨_, Table.get?_put_self hm, rfl, rfl, rfl⟩
    · simp only [hk, if_false, decide_false]
      exact ⟨m, hm, rfl, rfl, rfl⟩
  | get MVID k =>
    simp only [serverDo, serverDoGet, hm, ServerMV.after, ServerMV.answer, Request.writes,
      Option.elim_none]
    by_cases hk : k < m.size
    · simp only [hk, if_true]
      exact ⟨m, hm, rfl, rfl, rfl⟩
    · simp only [hk, if_false]
      exact ⟨m, hm, rfl, rfl, rfl⟩
  | _ => cases hr

/-! ## What the variable holds -/

/-- The variable after the log: it holds what was written, and the history of its Sets and
Gets is that of an array of registers. -/
structure Held (sent : List (Sender × Request)) (id size : Nat) (log : List (Nat × Out))
    (m : ServerMV) : Prop where
  sized : m.size = size
  length : m.v.length = size
  values : ∀ k < size, m.v.getD k 0 = valueAt k (accesses id log)
  answers : events sent id log = history (respond size) [] (accesses id log)

namespace Held

variable {sent : List (Sender × Request)} {id size : Nat} {log : List (Nat × Out)} {m : ServerMV}

/-- Nothing is seen of the variable, and it keeps its values. -/
theorem other (h : Held sent id size log m) {m' : ServerMV} {log' : List (Nat × Out)}
    (hsize : m'.size = m.size) (hv : m'.v = m.v) (hevents : events sent id log' = [])
    (haccesses : accesses id log' = []) : Held sent id size (log ++ log') m' where
  sized := hsize.trans h.sized
  length := by rw [hv, h.length]
  values k hk := by rw [hv, accesses_append, haccesses, List.append_nil, h.values k hk]
  answers := by
    rw [events_append, accesses_append, hevents, haccesses, List.append_nil, List.append_nil,
      h.answers]

/-- **One more Set or Get.** -/
theorem access (h : Held sent id size log m) {m' : ServerMV} {log' : List (Nat × Out)}
    {c : Sender} {r : Request} (hr : r.onMV id = true) (hsize : m'.size = m.size)
    (hv : m'.v = m.after r) (hevents : events sent id log' = [.ran c r, .told c (m.answer r)])
    (haccesses : accesses id log' = [(c, r)]) : Held sent id size (log ++ log') m' where
  sized := hsize.trans h.sized
  length := by
    rw [hv, ServerMV.after]
    cases r.writes with
    | none => exact h.length
    | some w =>
      rw [Option.elim_some]
      split
      · rw [List.length_set, h.length]
      · exact h.length
  values k hk := by
    have hlength : k < m.v.length := h.length ▸ hk
    rw [accesses_append, haccesses, valueAt, Lib.lastWrite_concat, hv, ServerMV.after]
    cases r.writes with
    | none => exact h.values k hk
    | some w =>
      rw [Option.elim_some, Option.elim_some]
      by_cases hw : w.1 = k
      · -- the value that is read is the one just written
        have hin : w.1 < m.size := by rw [hw, h.sized]; exact hk
        rw [if_pos hin, if_pos hw, hw, List.getD_eq_getElem?_getD, List.getElem?_set_self hlength]
        rfl
      · rw [if_neg hw]
        split
        · rw [List.getD_eq_getElem?_getD, List.getElem?_set_ne hw, ← List.getD_eq_getElem?_getD]
          exact h.values k hk
        · exact h.values k hk
  answers := by
    have hanswer : m.answer r = respond size (accesses id log) r := by
      cases r with
      | set MVID k value =>
        rw [ServerMV.answer, respond, h.sized]
      | get MVID k =>
        rw [ServerMV.answer, respond, h.sized]
        by_cases hk : k < size
        · rw [if_pos hk, if_pos hk, h.values k hk]
        · rw [if_neg hk, if_neg hk]
      | _ => cases hr
    rw [events_append, accesses_append, hevents, haccesses, Lib.history_concat, h.answers,
      List.nil_append, hanswer]

end Held

/-! ## Over a run -/

/-- The Sets of a run are for ids of awake servers. -/
def SetsOwned (n : Network) : Op → Prop
  | .send _ _ _ (.set MVID _ _) => owner MVID ∈ n.awake
  | _ => True

instance (n : Network) (op : Op) : Decidable (SetsOwned n op) := by
  unfold SetsOwned
  split <;> infer_instance

/-- What such a run keeps. -/
structure Placed (n : Network) : Prop where
  known : Known n
  forwarded : Forwarded [] n
  intact : ∀ j, (n.server j).Intact
  owned : ∀ c MVID index value, (c, Request.set MVID index value) ∈ n.sent → owner MVID ∈ n.awake

theorem placed_init (up : Nat → Bool) : Placed (.init up) where
  known := known_init up
  forwarded := forwarded_init up
  intact _ := ⟨Table.Intact.empty, Table.Intact.empty, Table.Intact.empty⟩
  owned _ _ _ _ h := by cases h

theorem placed_step {n n' : Network} {op : Op} (h : Placed n)
    (hstep : Restrict NetStep SetsOwned n op n') : Placed n' := by
  obtain ⟨hstep, howned⟩ := hstep
  refine ⟨known_step h.known hstep, forwarded_step h.known.numbered h.forwarded hstep, ?_, ?_⟩
  · cases netStep_spec hstep with
    | send | take => exact h.intact
    | @deliver l₁ m l₂ hmails hdst =>
      intro j
      by_cases hj : j = m.dst
      · subst hj
        rw [Network.run_server_self]
        exact (Keeps.receive m.src m.body _ (h.intact m.dst)).1
      · rw [Network.run_server_of_ne _ _ _ hj]
        exact h.intact j
  · rw [netStep_awake hstep]
    cases netStep_spec hstep with
    | deliver | take => exact h.owned
    | @send machine mailbox dst r hmachine hdst =>
      intro c MVID index value hsent
      rcases List.mem_append.mp hsent with hsent | hsent
      · exact h.owned c MVID index value hsent
      · cases List.mem_singleton.mp hsent
        exact howned

/-- A client that has sent a request sends no other one under the same number. -/
theorem isClient_of_sent {n : Network} (h : Traced n) {x : Sender} {r : Request} {id : Nat}
    (hsent : (x, r) ∈ n.sent) : isClient n.sent id x = r.onMV id := by
  cases hr : r.onMV id with
  | true => exact List.any_eq_true.mpr ⟨(x, r), hsent, by simp [hr]⟩
  | false =>
    rw [← Bool.not_eq_true]
    intro hclient
    obtain ⟨⟨y, r'⟩, hsent', hand⟩ := List.any_eq_true.mp hclient
    simp only [Bool.and_eq_true, decide_eq_true_eq] at hand
    obtain ⟨rfl, hr'⟩ := hand
    rw [h.sent_unique hsent hsent', hr'] at hr
    cases hr

/-- Code that runs no Set or Get of the variable and answers nobody who sent one is not seen. -/
theorem unseen {sent : List (Sender × Request)} {id : Nat} {out : List Out} (j : Nat)
    (hexec : ∀ index x r, Out.exec index x r ∈ out → r.onMV id = false)
    (hanswer : ∀ dst x a, Out.mail dst (.answer x a) ∈ out → isClient sent id x = false) :
    events sent id (out.map (j, ·)) = [] ∧ accesses id (out.map (j, ·)) = [] := by
  constructor
  · rw [events, List.filterMap_eq_nil_iff]
    intro e he
    obtain ⟨o, ho, rfl⟩ := List.mem_map.mp he
    cases o with
    | exec index x r => simp [eventOf, hexec index x r ho]
    | mail dst body =>
      cases body with
      | answer x a => simp [eventOf, hanswer dst x a ho]
      | client | request | reply => rfl
    | nested | enter | leave | crash => rfl
  · rw [accesses, List.filterMap_eq_nil_iff]
    intro e he
    obtain ⟨o, ho, rfl⟩ := List.mem_map.mp he
    cases o with
    | exec index x r => simp [hexec index x r ho]
    | mail | nested | enter | leave | crash => rfl

/-- Mails of the servers among themselves are not seen. -/
theorem unseen_forwarded (sent : List (Sender × Request)) (id j : Nat) {out : List Out}
    (h : ∀ o ∈ out, o.forwarded) :
    events sent id (out.map (j, ·)) = [] ∧ accesses id (out.map (j, ·)) = [] :=
  unseen j (fun _ _ _ ho => (h _ ho).elim) fun _ _ _ ho => (h _ ho).elim

section Deliver

variable {n : Network} {l₁ l₂ : List Mail} {m : Mail} {id : Nat}
  (h' : Placed ((n.withMails (l₁ ++ l₂)).run m.dst (receive m.src m.body))) (h : Placed n)

include h'

/-- A Set or Get of the variable is run at its server and slot only. -/
theorem place_of_exec {index : Option Nat} {x : Sender} {r : Request} {MVID : Nat}
    (hid : r.id = some MVID) (howner : owner MVID ∈ n.awake)
    (ho : Out.exec index x r ∈ (receive m.src m.body (n.server m.dst)).2) :
    m.dst = owner MVID ∧ index = some (MVID % 100) :=
  h'.forwarded.place m.dst index x r MVID
    (List.mem_append_right _ (List.mem_map.mpr ⟨_, ho, rfl⟩)) hid howner

include h

/-- Handling a mail that runs no Set or Get of the variable is not seen. -/
theorem receive_unseen
    (hruns : ∀ index c r, m.body.runs (n.server m.dst) = some (index, c, r) → r.onMV id = false) :
    events n.sent id ((receive m.src m.body (n.server m.dst)).2.map (m.dst, ·)) = [] ∧
      accesses id ((receive m.src m.body (n.server m.dst)).2.map (m.dst, ·)) = [] := by
  have hclaimed : ∀ index x r, Out.exec index x r ∈ (receive m.src m.body (n.server m.dst)).2 →
      Claimed n.sent x r :=
    claimed_of_exec (n := n.withMails (l₁ ++ l₂)) h'.known.handed
  have htold := receive_told (fun index x r ho hr => (hclaimed index x r ho).notMV hr)
    (h.known.queued m.dst)
  refine unseen m.dst (fun index x r ho => ?_) fun dst x a ho => ?_
  · cases hmail : m.body.runs (n.server m.dst) with
    | none =>
      have hid := (receive_created m.src (h.intact m.dst) hmail).2 index x r ho
      cases r <;> first | rfl | cases hid
    | some e =>
      obtain ⟨index', c, r'⟩ := e
      obtain ⟨-, s₁, pre, -, hpre, hout, -⟩ := receive_runs m.src hmail
      rw [hout] at ho
      rcases List.mem_append.mp ho with ho | ho
      · exact absurd (hpre _ ho) fun hf => hf
      · rcases List.mem_cons.mp ho with ho | ho
        · cases ho
          exact hruns _ _ _ hmail
        · -- what the run starts for other clients are Acquires and Releases
          cases hMV : r'.isMV with
          | false =>
            have hnest := (Told.serverDo (B := fun _ => True) hMV index' trivial s₁).runs _ _ _ ho
            cases r <;> first | rfl | cases hnest
          | true =>
            obtain ⟨a, heq⟩ := (serverDo_isMV hMV index' c s₁).2.2 _ ho
            cases heq
  · rcases htold.2 dst x a ho with ⟨r, hsent, hr⟩ | ⟨index, r, hmail, hr⟩
    · rw [isClient_of_sent h.known.traced hsent]
      cases r <;> first | rfl | cases hr
    · obtain ⟨-, s₁, pre, -, -, hout, -⟩ := receive_runs m.src hmail
      have hexec : Out.exec index x r ∈ (receive m.src m.body (n.server m.dst)).2 := by
        rw [hout]
        exact List.mem_append_right _ List.mem_cons_self
      rw [isClient_of_sent h.known.traced ((hclaimed index x r hexec).sent hr)]
      exact hruns _ _ _ hmail

/-- Handling a mail that runs no Set or Get of the variable leaves its values alone. -/
theorem receive_slot_other
    (hruns : ∀ index c r, m.body.runs (n.server m.dst) = some (index, c, r) → r.onMV id = false)
    {mv mv' : ServerMV} (hdst : m.dst = owner id)
    (hmv : (n.server m.dst).serverMVs.get? (some (id % 100)) = some mv)
    (hmv' : (receive m.src m.body (n.server m.dst)).1.serverMVs.get? (some (id % 100)) = some mv') :
    mv'.size = mv.size ∧ mv'.v = mv.v := by
  cases hmail : m.body.runs (n.server m.dst) with
  | none =>
    obtain ⟨mv₁, hmv₁, hsize, hv⟩ :=
      ((receive_created m.src (h.intact m.dst) hmail).1 (id % 100)).1 mv hmv
    cases hmv'.symm.trans hmv₁
    exact ⟨hsize, hv⟩
  | some e =>
    obtain ⟨index, c, r⟩ := e
    obtain ⟨-, s₁, pre, hbefore, -, hout, hafter⟩ := receive_runs m.src hmail
    rw [← hbefore.MVs] at hmv
    rw [hafter.MVs] at hmv'
    refine serverDo_slot_other hmv (fun MVID k value hr hindex => ?_) hmv'
    -- a Set at this slot of this server is one of this variable
    have hexec : Out.exec index c r ∈ (receive m.src m.body (n.server m.dst)).2 := by
      rw [hout]
      exact List.mem_append_right _ List.mem_cons_self
    have hsent : (c, r) ∈ n.sent :=
      (claimed_of_exec (n := n.withMails (l₁ ++ l₂)) h'.known.handed index c r hexec).sent
        (by rw [hr]; rfl)
    rw [hr] at hsent
    obtain ⟨howner, hslot⟩ := place_of_exec h' (by rw [hr]; rfl)
      (h.owned c MVID k value hsent) hexec
    have hid : MVID = id := by
      have hmod : MVID % 100 = id % 100 := Option.some.inj (hslot.symm.trans hindex)
      have hdiv : MVID / 100 = id / 100 := howner.symm.trans hdst
      omega
    have hon := hruns index c r hmail
    rw [hr, hid] at hon
    simp [Request.onMV] at hon

/-- **A mail is handled while the variable is live.** -/
theorem held_deliver (hawake : owner id ∈ n.awake) {size : Nat} {log : List (Nat × Out)}
    {mv mv' : ServerMV} (hheld : Held n.sent id size log mv) (hmv : n.MV? id = some mv)
    (hmv' : ((n.withMails (l₁ ++ l₂)).run m.dst (receive m.src m.body)).MV? id = some mv') :
    Held n.sent id size
      (log ++ (receive m.src m.body (n.server m.dst)).2.map (m.dst, ·)) mv' := by
  by_cases hruns : ∃ index c r, m.body.runs (n.server m.dst) = some (index, c, r) ∧
      r.onMV id = true
  · obtain ⟨index, c, r, hmail, hr⟩ := hruns
    obtain ⟨-, s₁, pre, hbefore, hpre, hout, hafter⟩ := receive_runs m.src hmail
    have hexec : Out.exec index c r ∈ (receive m.src m.body (n.server m.dst)).2 := by
      rw [hout]
      exact List.mem_append_right _ List.mem_cons_self
    have hsent : (c, r) ∈ n.sent :=
      (claimed_of_exec (n := n.withMails (l₁ ++ l₂)) h'.known.handed index c r hexec).sent
        (onMV_isMV hr)
    obtain ⟨hdst, rfl⟩ := place_of_exec h' (onMV_id hr) hawake hexec
    rw [Network.MV?, ← hdst, ← hbefore.MVs] at hmv
    rw [Network.MV?, ← hdst, Network.run_server_self, Network.withMails_server, hafter.MVs] at hmv'
    obtain ⟨mv₁, hmv₁, hsize, hv, htold⟩ := serverDo_slot_access hmv hr c
    cases hmv'.symm.trans hmv₁
    have hout' : (receive m.src m.body (n.server m.dst)).2 = pre ++
        [.exec (some (id % 100)) c r, .mail c.machine (.answer c (mv.answer r))] := by
      rw [hout, ← htold]
      rfl
    obtain ⟨hevents, haccesses⟩ := unseen_forwarded n.sent id m.dst hpre
    refine hheld.access (c := c) hr hsize hv ?_ ?_
    · rw [hout', List.map_append, events_append, hevents]
      simp [events, eventOf, hr, isClient_of_sent h.known.traced hsent]
    · rw [hout', List.map_append, accesses_append, haccesses]
      simp [accesses, hr]
  · have hnot : ∀ index c r, m.body.runs (n.server m.dst) = some (index, c, r) →
        r.onMV id = false := by
      intro index c r hmail
      rw [← Bool.not_eq_true]
      exact fun hr => hruns ⟨index, c, r, hmail, hr⟩
    obtain ⟨hevents, haccesses⟩ := receive_unseen h' h hnot
    have hsame : mv'.size = mv.size ∧ mv'.v = mv.v := by
      by_cases hdst : owner id = m.dst
      · rw [Network.MV?, hdst] at hmv
        rw [Network.MV?, hdst, Network.run_server_self, Network.withMails_server] at hmv'
        exact receive_slot_other h' h hnot hdst.symm hmv hmv'
      · rw [Network.MV?, Network.run_server_of_ne _ _ _ hdst] at hmv'
        cases hmv.symm.trans hmv'
        exact ⟨rfl, rfl⟩
    exact hheld.other hsame.1 hsame.2 hevents haccesses

end Deliver

/-- A step after which the variable is still there. -/
def LiveStep (id : Nat) (n : Network) (op : Op) (n' : Network) : Prop :=
  Restrict NetStep SetsOwned n op n' ∧ (n'.MV? id).isSome = true

/-- A request that is sent changes nothing in the history so far. -/
theorem events_send {n : Network} (h : Known n) {log base : List (Nat × Out)}
    (hlog : n.log = base ++ log) (id machine mailbox : Nat) (r : Request) :
    events (n.sent ++ [(⟨machine, mailbox, n.nextTag⟩, r)]) id log = events n.sent id log := by
  refine List.filterMap_congr fun e he => ?_
  obtain ⟨j, o⟩ := e
  cases o with
  | mail dst body =>
    cases body with
    | answer x a =>
      obtain ⟨r', hsent, -⟩ := h.answered j dst x a (hlog ▸ List.mem_append_right _ he)
      have hne : (⟨machine, mailbox, n.nextTag⟩ : Sender) ≠ x := by
        rintro rfl
        exact absurd (h.traced.tag_lt _ hsent) (Nat.lt_irrefl _)
      have hclient : isClient (n.sent ++ [(⟨machine, mailbox, n.nextTag⟩, r)]) id x =
          isClient n.sent id x := by
        rw [isClient, List.any_append]
        simp [isClient, hne]
      show (if isClient (n.sent ++ _) id x then _ else _) = if isClient n.sent id x then _ else _
      rw [hclient]
    | client | request | reply => rfl
  | exec | nested | enter | leave | crash => rfl

/-- What a run keeps from the creation of the variable on. -/
structure Tracks (id size : Nat) (n₀ n : Network) : Prop where
  placed : Placed n
  awake : owner id ∈ n.awake
  held : ∃ log mv, n.log = n₀.log ++ log ∧ n.MV? id = some mv ∧ Held n.sent id size log mv

/-- **Every step keeps the variable and its history.** -/
theorem tracks_step {id size : Nat} {n₀ n n' : Network} {op : Op} (h : Tracks id size n₀ n)
    (hstep : LiveStep id n op n') : Tracks id size n₀ n' := by
  obtain ⟨hstep, hlive⟩ := hstep
  have hplaced := placed_step h.placed hstep
  refine ⟨hplaced, ?_, ?_⟩
  · rw [netStep_awake hstep.1]
    exact h.awake
  obtain ⟨log, mv, hlog, hmv, hheld⟩ := h.held
  obtain ⟨mv', hmv'⟩ := Option.isSome_iff_exists.mp hlive
  cases netStep_spec hstep.1 with
  | take => exact ⟨log, mv, hlog, hmv, hheld⟩
  | @send machine mailbox dst r hmachine hdst =>
    refine ⟨log, mv, hlog, hmv, hheld.sized, hheld.length, hheld.values, ?_⟩
    show events (n.sent ++ _) id log = _
    rw [events_send h.placed.known hlog, hheld.answers]
  | @deliver l₁ m l₂ hmails hdst =>
    refine ⟨log ++ (receive m.src m.body (n.server m.dst)).2.map (m.dst, ·), mv', ?_, hmv',
      held_deliver hplaced h.placed h.awake hheld hmv hmv'⟩
    rw [Network.run_log, Network.withMails_log, hlog, List.append_assoc]
    rfl

/-- **A new variable holds zeros.** -/
theorem tracks_create {id : Nat} {a n₀ : Network} {op : Op} (h : Placed a)
    (hawake : owner id ∈ a.awake) (hstep : Restrict NetStep SetsOwned a op n₀)
    (hnew : a.MV? id = none) {mv : ServerMV} (hmv : n₀.MV? id = some mv) :
    Tracks id mv.size n₀ n₀ := by
  have hplaced := placed_step h hstep
  have hzero : mv.v = List.replicate mv.size 0 := by
    cases netStep_spec hstep.1 with
    | send | take =>
      cases hnew.symm.trans hmv
    | @deliver l₁ m l₂ hmails hdst =>
      by_cases hown : owner id = m.dst
      · rw [Network.MV?, hown] at hnew
        rw [Network.MV?, hown, Network.run_server_self, Network.withMails_server] at hmv
        cases hmail : m.body.runs (a.server m.dst) with
        | none => exact ((receive_created m.src (h.intact m.dst) hmail).1 _).2 hnew mv hmv
        | some e =>
          obtain ⟨-, s₁, pre, hbefore, -, -, hafter⟩ := receive_runs m.src hmail
          rw [← hbefore.MVs] at hnew
          rw [hafter.MVs] at hmv
          cases (serverDo_slot_none hnew e.2.2 e.1 e.2.1).symm.trans hmv
      · rw [Network.MV?] at hnew
        rw [Network.MV?, Network.run_server_of_ne _ _ _ hown] at hmv
        cases hnew.symm.trans hmv
  refine ⟨hplaced, ?_, [], mv, (List.append_nil _).symm, hmv, rfl, ?_, fun k hk => ?_, rfl⟩
  · rw [netStep_awake hstep.1]
    exact hawake
  · rw [hzero, List.length_replicate]
  · rw [hzero, List.getD_eq_getElem?_getD, List.getElem?_replicate_of_lt hk]
    rfl

/-- A run of a Set or Get is seen once. -/
theorem count_accesses_le (id : Nat) (c : Sender) (r : Request) (log : List (Nat × Out)) :
    (accesses id log).count (c, r) ≤ log.countP fun e => e.2.isExec c r := by
  induction log with
  | nil => exact Nat.le_refl _
  | cons e log ih =>
    have happend : accesses id (e :: log) = accesses id [e] ++ accesses id log :=
      accesses_append id [e] log
    have hone : (accesses id [e]).count (c, r) ≤ if e.2.isExec c r then 1 else 0 := by
      obtain ⟨j, o⟩ := e
      cases o with
      | exec index x r' =>
        by_cases hon : r'.onMV id = true
        · by_cases heq : x = c ∧ r' = r
          · obtain ⟨rfl, rfl⟩ := heq
            simp [accesses, hon, Out.isExec]
          · have hne : (x, r') ≠ (c, r) := fun h => heq (Prod.mk.inj h)
            simp [accesses, hon, hne]
        · simp [accesses, hon]
      | mail | nested | enter | leave | crash => exact Nat.zero_le _
    rw [happend, List.count_append, List.countP_cons]
    omega

/-- What is in the order is a Set or Get of the variable that ran, sent by its client. -/
theorem mem_accesses {n : Network} (h : Known n) {log : List (Nat × Out)}
    (hsub : ∀ e ∈ log, e ∈ n.log) {id : Nat} {c : Sender} {r : Request} :
    (c, r) ∈ accesses id log ↔
      r.onMV id = true ∧ (c, r) ∈ n.sent ∧ ∃ j index, (j, Out.exec index c r) ∈ log := by
  constructor
  · intro hmem
    obtain ⟨⟨j, o⟩, ho, heq⟩ := List.mem_filterMap.mp hmem
    cases o with
    | exec index x r' =>
      simp only [Option.ite_none_right_eq_some, Option.some.injEq, Prod.mk.injEq] at heq
      obtain ⟨hr, rfl, rfl⟩ := heq
      have hclaimed : Claimed n.sent x r' := h.handed.log _ (hsub _ ho)
      exact ⟨hr, hclaimed.sent (onMV_isMV hr), j, index, ho⟩
    | mail | nested | enter | leave | crash => cases heq
  · rintro ⟨hr, -, j, index, ho⟩
    exact List.mem_filterMap.mpr ⟨_, ho, by simp [hr]⟩

/-- A Set or Get of the variable is run at most once. -/
theorem Placed.executed_le {n : Network} (h : Placed n) {id : Nat} (hawake : owner id ∈ n.awake)
    {c : Sender} {r : Request} (hsent : (c, r) ∈ n.sent) (hr : r.onMV id = true) :
    n.executed c r ≤ 1 := by
  have hcount := h.forwarded.count c r id (onMV_id hr) hawake
  have hone := h.known.traced.requested_eq_one hsent
  omega

/-- The Sets and Gets of the variable in the log after its creation: they ran at its owner,
each once, and what is seen of them is the history of an array of registers. -/
structure Linear (id size : Nat) (n : Network) (log : List (Nat × Out)) : Prop where
  place : ∀ j index c r, (j, Out.exec index c r) ∈ n.log → r.onMV id = true →
    j = owner id ∧ index = some (id % 100)
  once : (accesses id log).Nodup
  answers : events n.sent id log = history (respond size) [] (accesses id log)

theorem Tracks.linear {id size : Nat} {n₀ n : Network} (h : Tracks id size n₀ n) :
    ∃ log, n.log = n₀.log ++ log ∧ Linear id size n log := by
  obtain ⟨log, mv, hlog, -, hheld⟩ := h.held
  have hplace : ∀ j index c r, (j, Out.exec index c r) ∈ n.log → r.onMV id = true →
      j = owner id ∧ index = some (id % 100) :=
    fun j index c r ho hr => h.placed.forwarded.place j index c r id ho (onMV_id hr) h.awake
  refine ⟨log, hlog, hplace, ?_, hheld.answers⟩
  rw [List.nodup_iff_count_le_one]
  rintro ⟨c, r⟩
  by_cases hmem : (c, r) ∈ accesses id log
  · have hsub : ∀ e ∈ log, e ∈ n.log := fun e he => hlog ▸ List.mem_append_right _ he
    obtain ⟨hr, hsent, -⟩ := (mem_accesses h.placed.known hsub).mp hmem
    have hone := h.placed.executed_le h.awake hsent hr
    have hle := count_accesses_le id c r log
    have hall : (log.countP fun e => e.2.isExec c r) ≤ n.executed c r := by
      rw [Network.executed, hlog, List.countP_append]
      exact Nat.le_add_left _ _
    omega
  · rw [List.count_eq_zero_of_not_mem hmem]
    exact Nat.zero_le _

/-- Logs and the lists of what was sent only grow. -/
theorem path_grows {n n' : Network} {id : Nat} {l : List Op} (h : Path (LiveStep id) n l n') :
    (∃ log, n'.log = n.log ++ log) ∧ ∀ e ∈ n.sent, e ∈ n'.sent := by
  refine h.invariant (I := fun k => (∃ log, k.log = n.log ++ log) ∧ ∀ e ∈ n.sent, e ∈ k.sent) ?_
    ⟨⟨[], (List.append_nil _).symm⟩, fun e he => he⟩
  rintro k op k' ⟨⟨log, hlog⟩, hsub⟩ ⟨⟨hstep, -⟩, -⟩
  cases netStep_spec hstep with
  | send => exact ⟨⟨log, hlog⟩, fun e he => List.mem_append_left _ (hsub e he)⟩
  | take => exact ⟨⟨log, hlog⟩, hsub⟩
  | @deliver l₁ m l₂ hmails hdst =>
    refine ⟨⟨log ++ (receive m.src m.body (k.server m.dst)).2.map (m.dst, ·), ?_⟩, hsub⟩
    rw [Network.run_log, Network.withMails_log, hlog, List.append_assoc]
    rfl

/-- The server has sent the client its answer. -/
def Network.replied (n : Network) (c : Sender) : Prop :=
  ∃ j dst a, (j, Out.mail dst (.answer c a)) ∈ n.log

/-- **The order respects the answers**: a call that was answered before another one was sent
comes first. -/
theorem Tracks.before {id size : Nat} {n₀ m n : Network} {log : List (Nat × Out)}
    (hm : Tracks id size n₀ m) (hn : Tracks id size n₀ n) (hlog : n.log = n₀.log ++ log)
    (hgrown : (∃ log₂, n.log = m.log ++ log₂) ∧ ∀ e ∈ m.sent, e ∈ n.sent) {c c' : Sender}
    {r r' : Request}
    (h : (c, r) ∈ accesses id log) (h' : (c', r') ∈ accesses id log) (hreplied : m.replied c)
    (hsent : (c', r') ∉ m.sent) : Before (accesses id log) (c, r) (c', r') := by
  obtain ⟨log₁, -, hlog₁, -, -⟩ := hm.held
  obtain ⟨⟨log₂, hlog₂⟩, hgrown⟩ := hgrown
  have hsplit : log = log₁ ++ log₂ := by
    rw [hlog, hlog₁, List.append_assoc] at hlog₂
    exact List.append_cancel_left hlog₂
  have hsub : ∀ e ∈ log₁, e ∈ m.log := fun e he => hlog₁ ▸ List.mem_append_right _ he
  have hsub' : ∀ e ∈ log, e ∈ n.log := fun e he => hlog ▸ List.mem_append_right _ he
  refine ⟨accesses id log₁, accesses id log₂, by rw [hsplit, accesses_append], ?_, ?_⟩
  · obtain ⟨hr, hcsent, j₂, index₂, hran₂⟩ := (mem_accesses hn.placed.known hsub').mp h
    obtain ⟨j, dst, a, hanswer⟩ := hreplied
    obtain ⟨r₁, hr₁, hran⟩ := hm.placed.known.answered j dst c a hanswer
    cases hn.placed.known.traced.sent_unique (hgrown _ hr₁) hcsent
    obtain ⟨j₁, index₁, hran₁⟩ := hran (onMV_isMV hr)
    rw [hlog₁] at hran₁
    rcases List.mem_append.mp hran₁ with hold | hnew
    · -- it would have run before the creation and after it
      have hone := hn.placed.executed_le hn.awake hcsent hr
      have hfirst : 0 < n₀.log.countP fun e => e.2.isExec c r :=
        List.countP_pos_iff.mpr ⟨_, hold, by simp [Out.isExec]⟩
      have hsecond : 0 < log.countP fun e => e.2.isExec c r :=
        List.countP_pos_iff.mpr ⟨_, hran₂, by simp [Out.isExec]⟩
      rw [Network.executed, hlog, List.countP_append] at hone
      omega
    · exact (mem_accesses hm.placed.known hsub).mpr ⟨hr, hr₁, j₁, index₁, hnew⟩
  · rw [hsplit, accesses_append] at h'
    rcases List.mem_append.mp h' with h' | h'
    · exact absurd ((mem_accesses hm.placed.known hsub).mp h').2.1 hsent
    · exact h'

/-- **A monitor variable is an array of atomic registers**, from the step that creates it for
as long as it is there. All its Sets and Gets run at its owner, each at most once; the order
in which they run is one in which every answer is that of the registers, and it respects the
answers. -/
theorem monitor_variable_atomic {up : Nat → Bool} {a n₀ n : Network} {op : Op} {l : List Op}
    {id : Nat} {mv : ServerMV} (ha : Reachable (Restrict NetStep SetsOwned) (.init up) a)
    (hawake : owner id ∈ a.awake) (hcreate : Restrict NetStep SetsOwned a op n₀)
    (hnew : a.MV? id = none) (hmv : n₀.MV? id = some mv) (hpath : Path (LiveStep id) n₀ l n) :
    ∃ log, n.log = n₀.log ++ log ∧ Linear id mv.size n log ∧
      ∀ m l₁ l₂, Path (LiveStep id) n₀ l₁ m → Path (LiveStep id) m l₂ n →
        ∀ c r c' r', (c, r) ∈ accesses id log → (c', r') ∈ accesses id log → m.replied c →
          (c', r') ∉ m.sent → Before (accesses id log) (c, r) (c', r') := by
  have hplaced : Placed a := ha.invariant (placed_init up) fun _ _ _ => placed_step
  have htracks : Tracks id mv.size n₀ n₀ := tracks_create hplaced hawake hcreate hnew hmv
  have hrun : ∀ {k k' : Network} {l : List Op}, Path (LiveStep id) k l k' →
      Tracks id mv.size n₀ k → Tracks id mv.size n₀ k' :=
    fun hpath h => hpath.invariant (I := Tracks id mv.size n₀) (fun _ _ _ => tracks_step) h
  have hend := hrun hpath htracks
  obtain ⟨log, hlog, hlinear⟩ := hend.linear
  refine ⟨log, hlog, hlinear, fun m l₁ l₂ h₁ h₂ c r c' r' hc hc' hreplied hsent => ?_⟩
  exact (hrun h₁ htracks).before hend hlog (path_grows h₂) hc hc' hreplied hsent

/-! ## Over the post office -/

/-- A step over the post office that meets the condition, with Sets for ids of awake servers only,
after which the variable is still there. -/
def LivePost (C : Network → Op → Prop) (id : Nat) (n : Network) (op : Op) (n' : Network) : Prop :=
  Restrict (Restrict PostStep C) SetsOwned n op n' ∧ (n'.MV? id).isSome = true

theorem ownedStep_of_post {n n' : Network} {op : Op} (h : Fitted n)
    (hstep : Restrict (Restrict PostStep Room) SetsOwned n op n') :
    Restrict NetStep SetsOwned n op n' ∧ Fitted n' := by
  have hnet := netStep_of_post h hstep.1
  exact ⟨⟨hnet.1, hstep.2⟩, fitted_step h hnet⟩

theorem ownedRun_of_post {up : Nat → Bool} {n : Network}
    (h : Reachable (Restrict (Restrict PostStep Room) SetsOwned) (.init up) n) :
    Reachable (Restrict NetStep SetsOwned) (.init up) n ∧ Fitted n := by
  have hsim : ∀ s op s' t, s = t ∧ Fitted s → Restrict (Restrict PostStep Room) SetsOwned s op s' →
      ∃ t', Restrict NetStep SetsOwned t op t' ∧ (s' = t' ∧ Fitted s') := by
    rintro s op s' t ⟨rfl, hs⟩ hstep
    obtain ⟨hnet, hs'⟩ := ownedStep_of_post hs hstep
    exact ⟨s', hnet, rfl, hs'⟩
  obtain ⟨l, hpath⟩ := h
  obtain ⟨k, hnet, rfl, hk⟩ := hpath.refine (R := fun s t => s = t ∧ Fitted s) hsim
    ⟨rfl, fitted_init up⟩
  exact ⟨⟨l, hnet⟩, hk⟩

theorem livePath_of_post {id : Nat} {n n' : Network} {l : List Op} (h : Fitted n)
    (hpath : Path (LivePost Room id) n l n') : Path (LiveStep id) n l n' ∧ Fitted n' := by
  have hsim : ∀ s op s' t, s = t ∧ Fitted s → LivePost Room id s op s' →
      ∃ t', LiveStep id t op t' ∧ (s' = t' ∧ Fitted s') := by
    rintro s op s' t ⟨rfl, hs⟩ ⟨hstep, hlive⟩
    obtain ⟨hnet, hs'⟩ := ownedStep_of_post hs hstep
    exact ⟨s', ⟨hnet, hlive⟩, rfl, hs'⟩
  obtain ⟨k, hlive, rfl, hk⟩ := hpath.refine (R := fun s t => s = t ∧ Fitted s) hsim ⟨rfl, h⟩
  exact ⟨hlive, hk⟩

/-- An access that ran was answered. -/
theorem Linear.replied {id size : Nat} {n : Network} {log : List (Nat × Out)}
    (h : Linear id size n log) (hsub : ∀ e ∈ log, e ∈ n.log) {c : Sender} {r : Request}
    (hran : (c, r) ∈ accesses id log) : n.replied c := by
  obtain ⟨a, htold⟩ : ∃ a, .told c a ∈ Lib.history (respond size) [] (accesses id log) :=
    Lib.told_mem_history hran
  rw [← h.answers] at htold
  obtain ⟨⟨j, o⟩, ho, heq⟩ := List.mem_filterMap.mp htold
  cases o with
  | mail dst body =>
    cases body with
    | answer x a' =>
      simp only [eventOf, Option.ite_none_right_eq_some, Option.some.injEq,
        Event.told.injEq] at heq
      obtain ⟨-, rfl, rfl⟩ := heq
      exact ⟨j, dst, a', hsub _ ho⟩
    | client | request | reply => cases heq
  | exec => simp [eventOf] at heq
  | nested | enter | leave | crash => cases heq

/-- Once no mail is left, a call that was sent after the creation has run after it. -/
theorem Tracks.ran {id size : Nat} {n₀ n : Network} (h₀ : Known n₀) (hn : Tracks id size n₀ n)
    {log : List (Nat × Out)} (hlog : n.log = n₀.log ++ log) (hsettled : Settled n) {c : Sender}
    {r : Request} (hsent : (c, r) ∈ n.sent) (hnew : (c, r) ∉ n₀.sent) (hr : r.onMV id = true) :
    (c, r) ∈ accesses id log := by
  have hcount := hn.placed.forwarded.count c r id (onMV_id hr) hn.awake
  have hone := hn.placed.known.traced.requested_eq_one hsent
  have hzero := settled_brings hn.placed.known.numbered hsettled (owner id) c r
  rw [List.count_nil, hone, hzero] at hcount
  have hran : 0 < n.log.countP fun e => e.2.isExec c r := by
    rw [Network.executed] at hcount
    omega
  obtain ⟨⟨j, o⟩, ho, hexec⟩ := List.countP_pos_iff.mp hran
  obtain ⟨index, rfl⟩ : ∃ index, o = .exec index c r := by
    cases o with
    | exec index x r' =>
      obtain ⟨rfl, rfl⟩ : x = c ∧ r' = r := of_decide_eq_true hexec
      exact ⟨index, rfl⟩
    | mail | nested | enter | leave | crash => cases hexec
  rw [hlog] at ho
  rcases List.mem_append.mp ho with hold | hmem
  · -- before the creation its client had not sent it
    have hclaimed : Claimed n₀.sent c r := h₀.handed.log _ hold
    exact absurd (hclaimed.sent (onMV_isMV hr)) hnew
  · exact (mem_accesses hn.placed.known fun e he => hlog ▸ List.mem_append_right _ he).mpr
      ⟨hr, hsent, j, index, hmem⟩

/-- A step that leaves the variable there. -/
def Network.livePost (C : Network → Op → Prop) [∀ n op, Decidable (C n op)] (id : Nat)
    (n : Network) (op : Op) : Option Network :=
  (Lib.guarded (Lib.guarded Network.post C) SetsOwned n op).filter fun n' => (n'.MV? id).isSome

section LivePost

variable {C : Network → Op → Prop} [∀ n op, Decidable (C n op)] {id : Nat} {n n' : Network}
  {op : Op}

theorem ownedPost_of_guarded
    (h : Lib.guarded (Lib.guarded Network.post C) SetsOwned n op = some n') :
    Restrict (Restrict PostStep C) SetsOwned n op n' :=
  Lib.restrict_of_guarded
    (fun _ _ _ hnext => Lib.restrict_of_guarded (fun _ _ _ hpost => hpost) hnext) h

theorem livePost_of_next (h : n.livePost C id op = some n') : LivePost C id n op n' := by
  obtain ⟨hnext, hlive⟩ := Option.filter_eq_some_iff.mp h
  exact ⟨ownedPost_of_guarded hnext, hlive⟩

end LivePost

/-- Server 0 is asked to create a variable, and asks server 1. -/
def createOps : List Op := [.send 5 0 0 (.createMV "m" 2), .deliver 0, .deliver 0]

/-- A Set of it is sent to server 1, and once it is answered, a Get to server 0. -/
def accessOps : List Op :=
  [.take 0, .send 5 0 1 (.set 0 1 7), .deliver 0, .deliver 0, .deliver 0, .take 0,
    .send 6 0 0 (.get 0 1), .deliver 0]

/-- Server 1 is asked to create a variable, and asks server 0. -/
def createOneOps : List Op := [.send 5 0 1 (.createMV "m" 2), .deliver 0, .deliver 0]

/-- Server 0 sends ten Gets on to server 1, and then a Set whose number has two digits. -/
def longAccessOps : List Op :=
  .take 0 :: ((List.range 10).flatMap fun k => [.send 5 0 0 (.get 100 0), .deliver k]) ++
    [.send 5 1 0 (.set 100 (2 ^ 31 - 1) (-2 ^ 31)), .deliver 10, .deliver 10]

end Nachos.Net

import Nachos.Net.Receive

/-!
# The tables of a server

What holds of the three tables whatever mails the server has handled: a bit of the map is
set exactly for a live entry, live entries have different names, no table grows beyond its
bitmap, a monitor variable has as many values as its size says, and a condition variable
remembers a lock exactly while clients wait on it. It follows that no `ASSERT` and no NULL
dereference is reached, and what the reply to a create says.

The invariant (`Server.Intact`) is carried through the code with the outputs (`Keeps`), by the
rule for the handling of a mail.
-/

namespace Nachos.Net

namespace Table

variable {α : Type} {t : Table α} {nameOf : α → String} {P : α → Prop}

/-! ## Names -/

theorem findNamed_some {name : String} {i : Nat} (h : t.findNamed nameOf name = some i) :
    ∃ a, t.get? (some i) = some a ∧ nameOf a = name := by
  obtain ⟨hlt, hp, -⟩ := List.findIdx?_eq_some_iff_getElem.mp h
  obtain ⟨a, ha, hname⟩ := (Option.any_eq_true _ _).mp hp
  refine ⟨a, ?_, of_decide_eq_true hname⟩
  rw [get?_some, List.getElem?_eq_getElem hlt, Option.join_some, ha]

theorem findNamed_none {name : String} (h : t.findNamed nameOf name = none) {i : Nat} {a : α}
    (ha : t.get? (some i) = some a) : nameOf a ≠ name := by
  have hnot := List.findIdx?_eq_none_iff.mp h _ (mem_of_get? ha)
  simpa using hnot

/-- A table in order: the bits are those of the live entries, there are a hundred of them,
no two live entries have the same name, and all satisfy `P`. -/
structure Intact (nameOf : α → String) (P : α → Prop) (t : Table α) : Prop where
  ok : t.Ok
  size : t.bitMap.numBits = 100
  names : ∀ i j a b, t.get? (some i) = some a → t.get? (some j) = some b →
    nameOf a = nameOf b → i = j
  entry : ∀ i a, t.get? (some i) = some a → P a

namespace Intact

theorem empty : (Table.empty 100 : Table α).Intact nameOf P :=
  ⟨ok_empty 100, rfl, fun i j a b ha => by simp [Table.empty, get?] at ha,
    fun i a ha => by simp [Table.empty, get?] at ha⟩

/-- An entry is written back under its name. -/
theorem put {index : Option Nat} {a b : α} (h : t.Intact nameOf P) (hb : t.get? index = some b)
    (hname : nameOf a = nameOf b) (ha : P a) : (t.put index a).Intact nameOf P := by
  have hold : ∀ {i : Nat} {c : α}, (t.put index a).get? (some i) = some c →
      ∃ d, t.get? (some i) = some d ∧ nameOf d = nameOf c := by
    intro i c hc
    rcases get?_put_cases hc with ⟨rfl, rfl⟩ | ⟨-, hc⟩
    · exact ⟨b, hb, hname.symm⟩
    · exact ⟨c, hc, rfl⟩
  refine ⟨h.ok.put hb, ?_, fun i j c d hc hd heq => ?_, fun i c hc => ?_⟩
  · cases index <;> exact h.size
  · obtain ⟨c', hc', hnc⟩ := hold hc
    obtain ⟨d', hd', hnd⟩ := hold hd
    exact h.names i j c' d' hc' hd' (by rw [hnc, hnd, heq])
  · rcases get?_put_cases hc with ⟨-, rfl⟩ | ⟨-, hc⟩
    · exact ha
    · exact h.entry i c hc

theorem remove (h : t.Intact nameOf P) (index : Option Nat) : (t.remove index).Intact nameOf P := by
  refine ⟨h.ok.remove index, ?_, fun i j a b ha hb => ?_, fun i a ha => ?_⟩
  · cases index <;> exact h.size
  · exact h.names i j a b (get?_remove_cases ha).2 (get?_remove_cases hb).2
  · exact h.entry i a (get?_remove_cases ha).2

theorem numBits_insert (t : Table α) (a : α) :
    (t.insert a).1.bitMap.numBits = t.bitMap.numBits := by
  unfold Table.insert
  split
  · rfl
  · rename_i i m hfind
    obtain ⟨-, -, -, rfl⟩ := BitMap.find_some hfind
    split
    · rfl
    · split <;> rfl

/-- A new entry, under a name that no live entry has. -/
theorem insert {a : α} (h : t.Intact nameOf P) (hnew : t.findNamed nameOf (nameOf a) = none)
    (ha : P a) : (t.insert a).1.Intact nameOf P := by
  have hsize := (numBits_insert t a).trans h.size
  generalize hinsert : t.insert a = res at hsize ⊢
  cases hinsert ▸ h.ok.insert a with
  | full => exact h
  | @new t' k hfree hself hother hok =>
    have hslot : ∀ {i : Nat} {c : α}, t'.get? (some i) = some c →
        i = k ∧ c = a ∨ i ≠ k ∧ t.get? (some i) = some c := by
      intro i c hc
      by_cases hi : i = k
      · subst hi
        exact .inl ⟨rfl, Option.some.inj (hc.symm.trans hself)⟩
      · exact .inr ⟨hi, (hother i hi).symm.trans hc⟩
    refine ⟨hok, hsize, fun i j c d hc hd heq => ?_, fun i c hc => ?_⟩
    · rcases hslot hc with ⟨hi, rfl⟩ | ⟨-, hc'⟩ <;> rcases hslot hd with ⟨hj, rfl⟩ | ⟨-, hd'⟩
      · rw [hi, hj]
      · exact absurd heq.symm (findNamed_none hnew hd')
      · exact absurd heq (findNamed_none hnew hc')
      · exact h.names i j c d hc' hd' heq
    · rcases hslot hc with ⟨-, rfl⟩ | ⟨-, hc'⟩
      · exact ha
      · exact h.entry i c hc'

end Intact

end Table

/-! ## The tables of a server -/

/-- A condition variable remembers a lock exactly while clients wait on it. -/
def ServerCV.Summed (cv : ServerCV) : Prop := cv.waitingLock = none ↔ cv.q = []

/-- The three tables are in order. -/
structure Server.Intact (s : Server) : Prop where
  locks : s.serverLocks.Intact ServerLock.name fun _ => True
  CVs : s.serverCVs.Intact ServerCV.name ServerCV.Summed
  MVs : s.serverMVs.Intact ServerMV.name fun m => m.v.length = m.size

/-- Code that keeps the tables in order and does not crash. -/
def Keeps (s : Server) (out : List Out) (s' : Server) : Prop :=
  s.Intact → s'.Intact ∧ Out.crash ∉ out

namespace Keeps

variable {s s₁ s₂ : Server} {o₁ o₂ : List Out}

theorem trans (h₁ : Keeps s o₁ s₁) (h₂ : Keeps s₁ o₂ s₂) : Keeps s (o₁ ++ o₂) s₂ := by
  intro h
  obtain ⟨hs₁, ho₁⟩ := h₁ h
  obtain ⟨hs₂, ho₂⟩ := h₂ hs₁
  refine ⟨hs₂, fun hmem => ?_⟩
  rcases List.mem_append.mp hmem with hmem | hmem
  · exact ho₁ hmem
  · exact ho₂ hmem

theorem same {out : List Out} (h : SameTables s s₁) (hout : Out.crash ∉ out) : Keeps s out s₁ := by
  refine fun hs => ⟨⟨?_, ?_, ?_⟩, hout⟩
  · rw [h.locks]
    exact hs.locks
  · rw [h.CVs]
    exact hs.CVs
  · rw [h.MVs]
    exact hs.MVs

theorem out {out : List Out} (hout : Out.crash ∉ out) : Keeps s out s :=
  same ⟨rfl, rfl, rfl, rfl, rfl⟩ hout

theorem note (s : Server) (out : List Out) (s' : Server) (h : SameTables s s')
    (hout : ∀ o ∈ out, o.forwarded) : Keeps s out s' :=
  same h fun hmem => hout _ hmem

theorem sendAnswer (c : Sender) (a : Answer) (s : Server) :
    Keeps s (sendAnswer c a s).2 (Net.sendAnswer c a s).1 :=
  out (by simp [Net.sendAnswer])

theorem answer (c : Sender) (a : Answer) (h : Keeps s o₁ s₁) :
    Keeps s (o₁ ++ (Net.sendAnswer c a s₁).2) (Net.sendAnswer c a s₁).1 :=
  h.trans (sendAnswer c a s₁)

/-! ### One table at a time -/

theorem locks {t : Table ServerLock}
    (ht : s.Intact → t.Intact ServerLock.name fun _ => True) :
    Keeps s [] { s with serverLocks := t } :=
  fun h => ⟨⟨ht h, h.CVs, h.MVs⟩, by simp⟩

theorem CVs {t : Table ServerCV} (ht : s.Intact → t.Intact ServerCV.name ServerCV.Summed) :
    Keeps s [] { s with serverCVs := t } :=
  fun h => ⟨⟨h.locks, ht h, h.MVs⟩, by simp⟩

theorem MVs {t : Table ServerMV}
    (ht : s.Intact → t.Intact ServerMV.name fun m => m.v.length = m.size) :
    Keeps s [] { s with serverMVs := t } :=
  fun h => ⟨⟨h.locks, h.CVs, ht h⟩, by simp⟩

theorem putLock {lockID : Option Nat} {l l' : ServerLock}
    (hl : s.serverLocks.get? lockID = some l) (hname : l'.name = l.name) :
    Keeps s [] (s.putLock lockID l') :=
  locks fun h => h.locks.put hl hname trivial

theorem putCV {CVID : Option Nat} {cv cv' : ServerCV} (hcv : s.serverCVs.get? CVID = some cv)
    (hname : cv'.name = cv.name) (hsum : cv.Summed → cv'.Summed) :
    Keeps s [] (s.putCV CVID cv') := by
  refine CVs fun h => h.CVs.put hcv hname ?_
  obtain ⟨i, rfl, -⟩ := Option.bind_eq_some_iff.mp hcv
  exact hsum (h.CVs.entry i cv hcv)

theorem putMV {MVID : Option Nat} {m m' : ServerMV} (hm : s.serverMVs.get? MVID = some m)
    (hname : m'.name = m.name) (hv : m.v.length = m.size → m'.v.length = m'.size) :
    Keeps s [] (s.putMV MVID m') := by
  refine MVs fun h => h.MVs.put hm hname ?_
  obtain ⟨i, rfl, -⟩ := Option.bind_eq_some_iff.mp hm
  exact hv (h.MVs.entry i m hm)

/-! ### Locks -/

theorem checkLockAndDestroy (lockID : Option Nat) (s : Server) :
    Keeps s (checkLockAndDestroy lockID s).2 (Net.checkLockAndDestroy lockID s).1 := by
  unfold Net.checkLockAndDestroy
  split
  · exact out (by simp)
  · split
    · exact locks fun h => h.locks.remove lockID
    · exact out (by simp)

theorem acquire (lockID : Option Nat) (c : Sender) (s : Server) :
    Keeps s (serverDoAcquireLock lockID c s).2 (serverDoAcquireLock lockID c s).1 := by
  unfold serverDoAcquireLock
  split
  · exact sendAnswer c _ s
  · rename_i l hl
    split
    · exact sendAnswer c _ s
    · split
      · exact (putLock hl (by rfl)).trans (out (by simp))
      · exact (putLock hl (by rfl)).answer c _

theorem release (lockID : Option Nat) (c : Sender) (s : Server) :
    Keeps s (serverDoReleaseLock lockID c s).2 (serverDoReleaseLock lockID c s).1 := by
  unfold serverDoReleaseLock
  split
  · exact out (by simp)
  · rename_i l hl
    split
    · split
      · exact (putLock hl (by rfl)).trans (out (by simp [Net.sendAnswer]))
      · exact (putLock hl (by rfl)).trans (checkLockAndDestroy _ _)
    · exact out (by simp)

theorem destroyLock (lockID : Option Nat) (s : Server) :
    Keeps s (serverDoDestroyLock lockID s).2 (serverDoDestroyLock lockID s).1 := by
  unfold serverDoDestroyLock
  split
  · exact out (by simp)
  · rename_i l hl
    exact (putLock hl (by rfl)).trans (checkLockAndDestroy _ _)

/-- The acquires and releases that a server starts for waiting clients. -/
theorem nested {r : Request} (hr : r.nestable = true) (c : Sender) : (serve c r).Meets Keeps := by
  obtain ⟨id, hid⟩ : ∃ id, r.id = some id := by
    cases r <;> first | exact ⟨_, rfl⟩ | cases hr
  refine .serve (fun _ _ _ _ _ h₁ h₂ => h₁.trans h₂) note hid c fun index s => ?_
  refine (out (by simp) : Keeps s [.exec index c r] s).trans ?_
  cases r with
  | acquire lockID => exact acquire index c s
  | release lockID => exact release index c s
  | _ => cases hr

/-- A client enters or leaves a queue, and a request is started for it. -/
theorem moved {o : Out} {r : Request} (ho : o ≠ .crash) (hr : r.nestable = true) (c : Sender) :
    (Act.andThen (.emit o) (.andThen (.emit (.nested c r)) (serve c r))).Meets Keeps := by
  have hemit : ∀ o : Out, o ≠ .crash → (Act.emit o).Meets Keeps :=
    fun o ho s => out (by simpa using ho.symm)
  have htrans : ∀ s o s₁ o₁ s₂, Keeps s o s₁ → Keeps s₁ o₁ s₂ → Keeps s (o ++ o₁) s₂ :=
    fun _ _ _ _ _ h₁ h₂ => h₁.trans h₂
  exact .andThen htrans (hemit o ho) (.andThen htrans (hemit _ (by simp)) (nested hr c))

/-! ### Condition variables -/

theorem checkCVAndDestroy (CVID : Option Nat) (s : Server) :
    Keeps s (checkCVAndDestroy CVID s).2 (Net.checkCVAndDestroy CVID s).1 := by
  unfold Net.checkCVAndDestroy
  split
  · exact out (by simp)
  · split
    · exact CVs fun h => h.CVs.remove CVID
    · exact out (by simp)

theorem destroyCV (CVID : Option Nat) (s : Server) :
    Keeps s (serverDoDestroyCV CVID s).2 (serverDoDestroyCV CVID s).1 := by
  unfold serverDoDestroyCV
  split
  · exact out (by simp)
  · rename_i cv hcv
    exact (putCV hcv (by rfl) (by exact id)).trans (checkCVAndDestroy _ _)

theorem wait (CVID : Option Nat) (lockID : Nat) (c : Sender) (s : Server) :
    Keeps s (serverDoWait CVID lockID c s).2 (serverDoWait CVID lockID c s).1 := by
  unfold serverDoWait
  cases hcv : s.serverCVs.get? CVID with
  | none => exact sendAnswer c _ s
  | some cv =>
    by_cases hlock : (if cv.waitingLock = none then some lockID else cv.waitingLock) = some lockID
    · simp only [hlock, ne_eq, not_true_eq_false, if_false]
      have hput : Keeps s [] (s.putCV CVID
          { cv with waitingLock := some lockID, q := cv.q ++ [c] }) :=
        putCV hcv rfl fun _ => by simp [ServerCV.Summed]
      exact hput.trans (moved (r := .release lockID) (by simp) rfl c _)
    · simp only [hlock, ne_eq, not_false_eq_true, if_true]
      exact sendAnswer c _ s

/-- A client leaves the queue; the lock is forgotten with the last one. -/
theorem wakeUp {CVID : Option Nat} {cv cv' : ServerCV} (hcv : s.serverCVs.get? CVID = some cv)
    (hname : cv'.name = cv.name) (r : Sender) {rest : List Sender}
    (hlock : rest ≠ [] → cv'.waitingLock ≠ none) (lockID : Nat) :
    Keeps s (wakeUp CVID cv' r rest lockID s).2 (Net.wakeUp CVID cv' r rest lockID s).1 := by
  have hput : Keeps s [] (s.putCV CVID { cv' with
      q := rest, waitingLock := if rest = [] then none else cv'.waitingLock }) := by
    refine putCV hcv hname fun _ => ?_
    by_cases hrest : rest = []
    · simp [ServerCV.Summed, hrest]
    · simp [ServerCV.Summed, hrest, hlock hrest]
  exact hput.trans (moved (r := .acquire lockID) (by simp) rfl r _)

theorem broadcastLoop {CVID : Option Nat} {cv cv' : ServerCV} (lockID : Nat) (q : List Sender)
    (hcv : s.serverCVs.get? CVID = some cv) (hname : cv'.name = cv.name)
    (hlock : q ≠ [] → cv'.waitingLock ≠ none) :
    Keeps s (broadcastLoop CVID cv' lockID q s).2 (Net.broadcastLoop CVID cv' lockID q s).1 := by
  induction q generalizing s cv with
  | nil => exact out (by simp [Net.broadcastLoop])
  | cons r rest ih =>
    have hlock' : cv'.waitingLock ≠ none := hlock (List.cons_ne_nil r rest)
    have hcv' := Table.get?_put_self (a := { cv' with
      q := rest, waitingLock := if rest = [] then none else cv'.waitingLock }) hcv
    rw [← wakeUp_CVs CVID cv' r rest lockID s] at hcv'
    exact (wakeUp hcv hname r (fun _ => hlock') lockID).trans (ih hcv' rfl fun _ => hlock')

theorem signal (CVID : Option Nat) (lockID : Nat) (c : Sender) (s : Server) :
    Keeps s (serverDoSignal CVID lockID c s).2 (serverDoSignal CVID lockID c s).1 := by
  unfold serverDoSignal
  split
  · exact sendAnswer c _ s
  · rename_i cv hcv
    split
    · exact sendAnswer c _ s
    · rename_i waitingLock hw
      split
      · exact sendAnswer c _ s
      · split
        · -- the queue is empty although a lock is remembered
          rename_i hq
          intro h
          obtain ⟨i, rfl, -⟩ := Option.bind_eq_some_iff.mp hcv
          have hnone := (h.CVs.entry i cv hcv).mpr hq
          rw [hw] at hnone
          cases hnone
        · rename_i r rest hq
          refine (wakeUp hcv rfl r (fun _ => ?_) lockID).answer c _
          rw [hw]
          exact Option.some_ne_none _

theorem broadcast (CVID : Option Nat) (lockID : Nat) (c : Sender) (s : Server) :
    Keeps s (serverDoBroadcast CVID lockID c s).2 (serverDoBroadcast CVID lockID c s).1 := by
  unfold serverDoBroadcast
  split
  · exact sendAnswer c _ s
  · rename_i cv hcv
    intro h
    refine ((broadcastLoop lockID cv.q hcv rfl fun hq => ?_).answer c _) h
    obtain ⟨i, rfl, -⟩ := Option.bind_eq_some_iff.mp hcv
    exact fun hnone => hq ((h.CVs.entry i cv hcv).mp hnone)

/-! ### Monitor variables -/

theorem destroyMV (MVID : Option Nat) (s : Server) :
    Keeps s (serverDoDestroyMV MVID s).2 (serverDoDestroyMV MVID s).1 := by
  unfold serverDoDestroyMV
  split
  · exact out (by simp)
  · rename_i m hm
    dsimp only
    split
    · exact MVs fun h => h.MVs.remove MVID
    · exact putMV hm (by rfl) id

theorem set (MVID : Option Nat) (index : Nat) (value : Int) (c : Sender) (s : Server) :
    Keeps s (serverDoSet MVID index value c s).2 (serverDoSet MVID index value c s).1 := by
  unfold serverDoSet
  split
  · exact sendAnswer c _ s
  · rename_i m hm
    split
    · have hput : Keeps s [] (s.putMV MVID { m with v := m.v.set index value }) :=
        putMV hm rfl fun h => by rw [List.length_set]; exact h
      exact hput.answer c _
    · exact sendAnswer c _ s

theorem get (MVID : Option Nat) (index : Nat) (c : Sender) (s : Server) :
    Keeps s (serverDoGet MVID index c s).2 (serverDoGet MVID index c s).1 := by
  unfold serverDoGet
  split
  · exact sendAnswer c _ s
  · split <;> exact sendAnswer c _ s

/-- **Running any request with an id.** -/
theorem execute (r : Request) (index : Option Nat) (c : Sender) :
    (execute r index c).Meets Keeps := by
  intro s
  refine (out (by simp) : Keeps s [.exec index c r] s).trans ?_
  cases r with
  | acquire lockID => exact acquire index c s
  | release lockID => exact release index c s
  | destroyLock lockID => exact destroyLock index s
  | wait CVID lockID => exact wait index lockID c s
  | signal CVID lockID => exact signal index lockID c s
  | broadcast CVID lockID => exact broadcast index lockID c s
  | destroyCondition CVID => exact destroyCV index s
  | destroyMV MVID => exact destroyMV index s
  | set MVID i value => exact set index i value c s
  | get MVID i => exact get index i c s
  | createLock | createCondition | createMV => exact out (by simp [serverDo])

end Keeps

/-! ## Creates -/

/-- A live entry that a create of this kind, name and size stands for. -/
def Server.HoldsNamed (s : Server) (i : Nat) : Request → Prop
  | .createLock name => ∃ l, s.serverLocks.get? (some i) = some l ∧ l.name = name
  | .createCondition name => ∃ cv, s.serverCVs.get? (some i) = some cv ∧ cv.name = name
  | .createMV name size =>
    ∃ m, s.serverMVs.get? (some i) = some m ∧ m.name = name ∧ m.size = size
  | _ => False

/-- The table of the kind of the create has no free slot. -/
def Server.Full (s : Server) : Request → Prop
  | .createLock _ => ∀ i < 100, (s.serverLocks.get? (some i)).isSome = true
  | .createCondition _ => ∀ i < 100, (s.serverCVs.get? (some i)).isSome = true
  | .createMV _ _ => ∀ i < 100, (s.serverMVs.get? (some i)).isSome = true
  | _ => False

/-- What a create does: it finds or makes the entry, or fails and leaves the server as it was. -/
inductive CreateSpec (s : Server) (r : Request) : Server × Option Nat × List Out → Prop where
  | made {s' : Server} {i : Nat} (haddr : s'.netAddr = s.netAddr) (hintact : s'.Intact)
      (hlt : i < 100) (hholds : s'.HoldsNamed i r) (hroom : hasNamed s r = true ∨ ¬ s.Full r) :
      CreateSpec s r (s', some i, [])
  | full (hhas : hasNamed s r = false) (hfull : s.Full r) : CreateSpec s r (s, none, [])
  | otherSize {name : String} {size i : Nat} {m : ServerMV} (hr : r = .createMV name size)
      (hm : s.serverMVs.get? (some i) = some m) (hname : m.name = name) (hsize : m.size ≠ size) :
      CreateSpec s r (s, none, [])

namespace Table.Intact

variable {α : Type} {t : Table α} {nameOf : α → String} {P : α → Prop}

theorem index_lt (h : t.Intact nameOf P) {i : Nat} {a : α} (ha : t.get? (some i) = some a) :
    i < 100 := by
  have hlength := h.ok.length
  rw [h.size] at hlength
  exact Nat.lt_of_lt_of_le (lt_of_get? ha) hlength

/-- A new entry is in the table unless every slot is taken. -/
theorem insert_cases (h : t.Intact nameOf P) {a : α} (hnew : t.findNamed nameOf (nameOf a) = none)
    (ha : P a) :
    (∃ t' i, t.insert a = (t', some i, false) ∧ t'.Intact nameOf P ∧
      t'.get? (some i) = some a ∧ ¬ ∀ i < 100, (t.get? (some i)).isSome = true) ∨
    (t.insert a = (t, none, false) ∧ ∀ i < 100, (t.get? (some i)).isSome = true) := by
  have hintact := h.insert hnew ha
  generalize hinsert : t.insert a = res at hintact ⊢
  cases hinsert ▸ h.ok.insert a with
  | full hfull => exact .inr ⟨rfl, by rw [← h.size]; exact hfull⟩
  | @new t' i hfree hself hother hok =>
    refine .inl ⟨t', i, rfl, hintact, hself, fun hfull => ?_⟩
    have hlive := hfull i (hintact.index_lt hself)
    rw [hfree] at hlive
    cases hlive

end Table.Intact

theorem createLockNamed_spec {s : Server} (h : s.Intact) (name : String) :
    CreateSpec s (.createLock name) (createLockNamed name s) := by
  unfold createLockNamed
  cases hfind : findLockNamed s name with
  | none =>
    rcases h.locks.insert_cases (a := { name := name }) hfind trivial with
      ⟨t, i, hinsert, hintact, hget, hroom⟩ | ⟨hinsert, hfull⟩
    · simp only [hinsert]
      exact .made rfl ⟨hintact, h.CVs, h.MVs⟩ (hintact.index_lt hget) ⟨_, hget, rfl⟩
        (.inr hroom)
    · simp only [hinsert]
      exact .full (by simp [hasNamed, hfind]) hfull
  | some i =>
    obtain ⟨l, hl, hname⟩ := Table.findNamed_some hfind
    simp only [hl]
    exact .made rfl ⟨h.locks.put hl rfl trivial, h.CVs, h.MVs⟩ (h.locks.index_lt hl)
      ⟨_, Table.get?_put_self hl, hname⟩ (.inl (by simp [hasNamed, hfind]))

theorem createCVNamed_spec {s : Server} (h : s.Intact) (name : String) :
    CreateSpec s (.createCondition name) (createCVNamed name s) := by
  unfold createCVNamed
  cases hfind : findCVNamed s name with
  | none =>
    rcases h.CVs.insert_cases (a := { name := name }) hfind (by simp [ServerCV.Summed]) with
      ⟨t, i, hinsert, hintact, hget, hroom⟩ | ⟨hinsert, hfull⟩
    · simp only [hinsert]
      exact .made rfl ⟨h.locks, hintact, h.MVs⟩ (hintact.index_lt hget) ⟨_, hget, rfl⟩
        (.inr hroom)
    · simp only [hinsert]
      exact .full (by simp [hasNamed, hfind]) hfull
  | some i =>
    obtain ⟨cv, hcv, hname⟩ := Table.findNamed_some hfind
    simp only [hcv]
    exact .made rfl ⟨h.locks, h.CVs.put hcv rfl (h.CVs.entry i cv hcv), h.MVs⟩
      (h.CVs.index_lt hcv) ⟨_, Table.get?_put_self hcv, hname⟩ (.inl (by simp [hasNamed, hfind]))

theorem createMV_spec {s : Server} (h : s.Intact) (name : String) (size : Nat) :
    CreateSpec s (.createMV name size) (createMV name size s) := by
  unfold createMV
  cases hfind : findMVNamed s name with
  | none =>
    rcases h.MVs.insert_cases (a := { name := name, size := size, v := List.replicate size 0 })
        hfind (by simp) with
      ⟨t, i, hinsert, hintact, hget, hroom⟩ | ⟨hinsert, hfull⟩
    · simp only [hinsert]
      exact .made rfl ⟨h.locks, h.CVs, hintact⟩ (hintact.index_lt hget) ⟨_, hget, rfl, rfl⟩
        (.inr hroom)
    · simp only [hinsert]
      exact .full (by simp [hasNamed, hfind]) hfull
  | some i =>
    obtain ⟨m, hm, hname⟩ := Table.findNamed_some hfind
    simp only [hm]
    split
    · rename_i hsize
      exact .otherSize rfl hm hname hsize
    · rename_i hsize
      exact .made rfl ⟨h.locks, h.CVs, h.MVs.put hm rfl (h.MVs.entry i m hm)⟩
        (h.MVs.index_lt hm) ⟨_, Table.get?_put_self hm, hname, not_not.mp hsize⟩
        (.inl (by simp [hasNamed, hfind]))

theorem Keeps.created {s s' : Server} {r : Request} {index : Option Nat} {out : List Out}
    (h : s.Intact → CreateSpec s r (s', index, out)) : Keeps s out s' := by
  intro hs
  cases h hs with
  | made haddr hintact hlt hholds hroom => exact ⟨hintact, by simp⟩
  | full | otherSize => exact ⟨hs, by simp⟩

theorem Keeps.create (r : Request) (c : Sender) : (serverDoCreate r c).Meets Keeps := by
  intro s
  rw [serverDoCreate_eq]
  refine (Keeps.out (by simp) : Keeps s [.exec none c r] s).trans ?_
  unfold createBody
  split
  · exact (Keeps.created fun hs => createLockNamed_spec hs _).answer c _
  · exact (Keeps.created fun hs => createCVNamed_spec hs _).answer c _
  · exact (Keeps.created fun hs => createMV_spec hs _ _).answer c _
  · exact Keeps.out (by simp)

/-! ## Runs of one server -/

/-- A server that has just started. -/
def Server.start (netAddr : Nat) (others : List Nat) : Server :=
  { netAddr := netAddr, others := others }

/-- The server handles a mail. -/
def ServerStep (s : Server) (mail : Nat × Body) (s' : Server) : Prop :=
  s' = (receive mail.1 mail.2 s).1

theorem Server.Intact.start (netAddr : Nat) (others : List Nat) :
    (Server.start netAddr others).Intact :=
  ⟨.empty, .empty, .empty⟩

/-- **Handling any mail keeps the tables in order and does not crash.** -/
theorem Keeps.receive (src : Nat) (body : Body) : (receive src body).Meets Keeps :=
  receive_rule (fun _ _ _ _ _ h₁ h₂ => h₁.trans h₂) note (fun r c _ => create r c)
    (fun r _ index c _ => execute r index c) src body

theorem intact_of_reachable {netAddr : Nat} {others : List Nat} {s : Server}
    (h : Lib.Reachable ServerStep (Server.start netAddr others) s) : s.Intact := by
  refine h.invariant (.start netAddr others) fun s mail s' hs hstep => ?_
  rw [hstep]
  exact (Keeps.receive mail.1 mail.2 s hs).1

/-- One table in order, read off its vector and its bitmap. -/
structure Table.Integrity {α : Type} (nameOf : α → String) (t : Table α) : Prop where
  bits : ∀ i : Nat,
    t.bitMap.test i = true ↔ i < t.entries.length ∧ ∃ a, t.entries[i]? = some (some a)
  names : ∀ (i j : Nat) (a b : α), t.entries[i]? = some (some a) → t.entries[j]? = some (some b) →
    nameOf a = nameOf b → i = j
  length : t.entries.length ≤ 100
  lowest : ∀ i m, t.bitMap.find = (some i, m) → i ≤ t.entries.length

theorem Table.Intact.integrity {α : Type} {nameOf : α → String} {P : α → Prop} {t : Table α}
    (h : t.Intact nameOf P) : t.Integrity nameOf := by
  have hlive : ∀ {i : Nat} {a : α}, t.entries[i]? = some (some a) ↔ t.get? (some i) = some a :=
    fun {i a} => Option.join_eq_some_iff.symm
  refine ⟨fun i => ?_, fun i j a b ha hb => h.names i j a b (hlive.mp ha) (hlive.mp hb), ?_,
    fun i m hfind => ?_⟩
  · rw [h.ok.bits, Option.isSome_iff_exists]
    constructor
    · rintro ⟨a, ha⟩
      exact ⟨lt_of_get? ha, a, hlive.mpr ha⟩
    · rintro ⟨-, a, ha⟩
      exact ⟨a, hlive.mp ha⟩
  · rw [← h.size]
    exact h.ok.length
  · -- the slots below the lowest clear bit are all live
    obtain ⟨-, -, hbefore, -⟩ := BitMap.find_some hfind
    by_contra hgt
    have hbit := hbefore t.entries.length (Nat.not_le.mp hgt)
    rw [h.ok.bits, get?_some, List.getElem?_eq_none (Nat.le_refl _)] at hbit
    cases hbit

/-- **The tables of a server are in order** after any sequence of mails, and no mail makes it
reach an `ASSERT(FALSE)`, whether in a create or elsewhere. -/
theorem server_table_integrity {netAddr : Nat} {others : List Nat} {s : Server}
    (h : Lib.Reachable ServerStep (Server.start netAddr others) s) :
    s.serverLocks.Integrity ServerLock.name ∧ s.serverCVs.Integrity ServerCV.name ∧
    s.serverMVs.Integrity ServerMV.name ∧
    (∀ i m, s.serverMVs.get? (some i) = some m → m.v.length = m.size) ∧
    (∀ name, Out.crash ∉ (createLockNamed name s).2.2) ∧
    (∀ name, Out.crash ∉ (createCVNamed name s).2.2) ∧
    (∀ name size, Out.crash ∉ (createMV name size s).2.2) ∧
    ∀ src body, Out.crash ∉ (receive src body s).2 := by
  have hs := intact_of_reachable h
  refine ⟨hs.locks.integrity, hs.CVs.integrity, hs.MVs.integrity, hs.MVs.entry,
    fun name => ?_, fun name => ?_, fun name size => ?_, fun src body => ?_⟩
  · exact (Keeps.created (fun hs => createLockNamed_spec hs name) hs).2
  · exact (Keeps.created (fun hs => createCVNamed_spec hs name) hs).2
  · exact (Keeps.created (fun hs => createMV_spec hs name size) hs).2
  · exact (Keeps.receive src body s hs).2

/-- The server as a function of the mails, one after the other. -/
def serverStep? (s : Server) (mail : Nat × Body) : Option Server :=
  some (receive mail.1 mail.2 s).1

theorem serverStep_of_serverStep? {s s' : Server} {mail : Nat × Body}
    (h : serverStep? s mail = some s') : ServerStep s mail s' :=
  (Option.some.inj h).symm

/-- A client thread of the runs below. -/
def someClient : Sender := ⟨5, 1, 0⟩

/-- The lock in slot 0 is destroyed and its slot used again. -/
theorem server_table_integrity_reused : ∃ s,
    Lib.Reachable ServerStep (Server.start 0 []) s ∧
    s.serverLocks.entries.length = 2 ∧ s.serverLocks.Integrity ServerLock.name := by
  have hrun : (Lib.execute serverStep? (Server.start 0 [])
      ([.createLock "a", .createLock "b", .destroyLock 0, .createLock "c"].map fun r =>
        (5, .client someClient r))).any (fun s =>
          decide (s.serverLocks.entries.length = 2)) = true := by
    decide +kernel
  obtain ⟨s, hs, hlength⟩ := (Option.any_eq_true _ _).mp hrun
  have hreach : Lib.Reachable ServerStep (Server.start 0 []) s :=
    ⟨_, Lib.path_of_execute (fun _ _ _ => serverStep_of_serverStep?) hs⟩
  exact ⟨s, hreach, of_decide_eq_true hlength, (server_table_integrity hreach).1⟩

/-! ## What the reply to a create says -/

/-- The reply of a create is one answer: success with an id that decodes to a live entry of
this server with the name (and size) that was asked for, or failure with nothing changed. -/
def CreateSound (r : Request) (c : Sender) (s : Server) : Prop :=
  ∃ a, (serverDoCreate r c s).2 = [.exec none c r, .mail c.machine (.answer c a)] ∧
    ((a.status = true ∧ ∃ id : Nat, a.value = some (id : Int) ∧ id / 100 = s.netAddr ∧
      (serverDoCreate r c s).1.HoldsNamed (id % 100) r) ∨
    (a.status = false ∧ (serverDoCreate r c s).1 = s))

/-- A new lock where there is no room for one, on a server other than 0. -/
def LockOverflow (r : Request) (s : Server) : Prop :=
  (∃ name, r = .createLock name) ∧ hasNamed s r = false ∧ s.Full r ∧ s.netAddr ≠ 0

theorem decode_id {n i : Nat} (hi : i < 100) : (n * 100 + i) / 100 = n ∧ (n * 100 + i) % 100 = i := by
  omega

theorem createAnswer_sound {s s' : Server} {r : Request} {index : Option Nat} {out : List Out}
    (h : CreateSpec s r (s', index, out)) :
    (createAnswer 100 s' index).status = true ∧
      (∃ id : Nat, (createAnswer 100 s' index).value = some (id : Int) ∧ id / 100 = s.netAddr ∧
        s'.HoldsNamed (id % 100) r) ∨
    (createAnswer 100 s' index).status = false ∧ s' = s := by
  cases h with
  | @made _ i haddr hintact hlt hholds hroom =>
    obtain ⟨hdiv, hmod⟩ := decode_id (n := s'.netAddr) hlt
    exact .inl ⟨rfl, s'.netAddr * 100 + i, rfl, hdiv.trans haddr, by rw [hmod]; exact hholds⟩
  | full | otherSize => exact .inr ⟨rfl, rfl⟩

theorem CreateSpec.quiet {s s' : Server} {r : Request} {index : Option Nat} {out : List Out}
    (h : CreateSpec s r (s', index, out)) : out = [] := by
  cases h <;> rfl

/-- The id of a lock is computed before the test for failure: it is `-1` on server 0 only. -/
theorem createLock_sound_iff {s : Server} (hs : s.Intact) (name : String) (c : Sender) :
    CreateSound (.createLock name) c s ↔ ¬ LockOverflow (.createLock name) s := by
  have hdo : serverDoCreate (.createLock name) c s =
      ((createLockNamed name s).1, .exec none c (.createLock name) ::
        (serverDoCreateLock name c s).2) := rfl
  have hspec := createLockNamed_spec hs name
  unfold serverDoCreateLock at hdo
  generalize hcreate : createLockNamed name s = res at hspec hdo
  unfold CreateSound
  rw [hdo]
  cases hspec with
  | @made s' i haddr hintact hlt hholds hroom =>
    obtain ⟨hdiv, hmod⟩ := decode_id (n := s'.netAddr) hlt
    have hid : (s'.netAddr : Int) * lockTableSize + Int.ofNat i =
        ((s'.netAddr * 100 + i : Nat) : Int) := by
      simp [lockTableSize]
    refine iff_of_true ⟨_, rfl, .inl ⟨?_, s'.netAddr * 100 + i, ?_, hdiv.trans haddr, ?_⟩⟩ ?_
    · simp only [Option.map_some, Option.getD_some, hid]
      exact decide_eq_true (by omega)
    · simp only [Option.map_some, Option.getD_some, hid]
    · rw [hmod]
      exact hholds
    · rintro ⟨-, hhas, hfull, -⟩
      rcases hroom with hroom | hroom
      · rw [hhas] at hroom
        cases hroom
      · exact hroom hfull
  | full hhas hfull =>
    simp only [Option.map_none, Option.getD_none]
    by_cases haddr : s.netAddr = 0
    · exact iff_of_true ⟨_, rfl, .inr ⟨by simp [haddr], trivial⟩⟩
        fun hover => hover.2.2.2 haddr
    · -- the id belongs to the server before this one
      refine iff_of_false ?_ fun hnot => hnot ⟨⟨name, rfl⟩, hhas, hfull, haddr⟩
      rintro ⟨a, hout, ⟨-, id, hvalue, hdiv, -⟩ | ⟨hstatus, -⟩⟩
      · have ha := (List.cons.inj (List.cons.inj hout).2).1
        cases ha
        simp only [lockTableSize, Option.some.injEq] at hvalue
        omega
      · have ha := (List.cons.inj (List.cons.inj hout).2).1
        cases ha
        have hid := of_decide_eq_false hstatus
        simp only [lockTableSize] at hid
        omega
  | otherSize hr => cases hr

/-- The other two creates test the index itself. -/
theorem create_sound {s : Server} (hs : s.Intact) (c : Sender) {r : Request} (hr : r.id = none)
    (hlock : ∀ name, r ≠ .createLock name) : CreateSound r c s := by
  cases r with
  | createCondition name =>
    have hdo : serverDoCreate (.createCondition name) c s = ((createCVNamed name s).1,
        .exec none c (.createCondition name) :: ((createCVNamed name s).2.2 ++
          [.mail c.machine (.answer c
            (createAnswer 100 (createCVNamed name s).1 (createCVNamed name s).2.1))])) := rfl
    have hspec := createCVNamed_spec hs name
    have hquiet : (createCVNamed name s).2.2 = [] := hspec.quiet
    unfold CreateSound
    rw [hdo, hquiet]
    exact ⟨_, rfl, createAnswer_sound hspec⟩
  | createMV name size =>
    have hdo : serverDoCreate (.createMV name size) c s = ((createMV name size s).1,
        .exec none c (.createMV name size) :: ((createMV name size s).2.2 ++
          [.mail c.machine (.answer c
            (createAnswer 100 (createMV name size s).1 (createMV name size s).2.1))])) := rfl
    have hspec := createMV_spec hs name size
    have hquiet : (createMV name size s).2.2 = [] := hspec.quiet
    unfold CreateSound
    rw [hdo, hquiet]
    exact ⟨_, rfl, createAnswer_sound hspec⟩
  | createLock name => exact absurd rfl (hlock name)
  | _ => cases hr

/-- **The reply to a create is sound, except for a lock that finds no room** on a server
other than 0: for every state that any mails lead to, and every create. -/
theorem create_reply_sound_iff {netAddr : Nat} {others : List Nat} {s : Server}
    (h : Lib.Reachable ServerStep (Server.start netAddr others) s) (r : Request) (c : Sender)
    (hr : r.id = none) : CreateSound r c s ↔ ¬ LockOverflow r s := by
  have hs := intact_of_reachable h
  by_cases hlock : ∃ name, r = .createLock name
  · obtain ⟨name, rfl⟩ := hlock
    exact createLock_sound_iff hs name c
  · refine iff_of_true (create_sound hs c hr fun name hname => hlock ⟨name, hname⟩) ?_
    exact fun hover => hlock hover.1

/-- A second create of a condition variable on server 3. -/
theorem create_reply_sound_iff_again : ∃ s,
    Lib.Reachable ServerStep (Server.start 3 []) s ∧ hasNamed s (.createCondition "c") = true ∧
    CreateSound (.createCondition "c") someClient s := by
  have hrun : (Lib.execute serverStep? (Server.start 3 [])
      [(5, .client someClient (.createCondition "c"))]).any (fun s =>
        decide (hasNamed s (.createCondition "c") = true)) = true := by
    decide +kernel
  obtain ⟨s, hs, hhas⟩ := (Option.any_eq_true _ _).mp hrun
  have hreach : Lib.Reachable ServerStep (Server.start 3 []) s :=
    ⟨_, Lib.path_of_execute (fun _ _ _ => serverStep_of_serverStep?) hs⟩
  refine ⟨s, hreach, of_decide_eq_true hhas,
    (create_reply_sound_iff hreach (.createCondition "c") someClient rfl).mpr ?_⟩
  rintro ⟨⟨name, hname⟩, -⟩
  cases hname

/-- A client creates a hundred locks. -/
def hundredLocks : List (Nat × Body) :=
  (List.range 100).map fun i =>
    (5, .client someClient (.createLock (String.singleton (Char.ofNat (200 + i)))))

/-- The next create on server 1 is told success, with an id of server 0. -/
theorem full_table_replies_success : ∃ s,
    Lib.Reachable ServerStep (Server.start 1 []) s ∧
    (serverDoCreate (.createLock "x") someClient s).2 =
      [.exec none someClient (.createLock "x"), .mail 5 (.answer someClient ⟨true, some 99⟩)] ∧
    ¬ CreateSound (.createLock "x") someClient s := by
  have hrun : (Lib.execute serverStep? (Server.start 1 []) hundredLocks).any (fun s =>
      decide (s.netAddr = 1 ∧ (serverDoCreate (.createLock "x") someClient s).2 =
        [.exec none someClient (.createLock "x"),
          .mail 5 (.answer someClient ⟨true, some 99⟩)])) = true := by
    decide +kernel
  obtain ⟨s, hs, hp⟩ := (Option.any_eq_true _ _).mp hrun
  obtain ⟨haddr, hout⟩ := of_decide_eq_true hp
  refine ⟨s, ⟨_, Lib.path_of_execute (fun _ _ _ => serverStep_of_serverStep?) hs⟩, hout, ?_⟩
  rintro ⟨a, ha, hsound⟩
  rw [hout] at ha
  cases ha
  rcases hsound with ⟨-, id, hvalue, hdiv, -⟩ | ⟨hstatus, -⟩
  · simp only [Option.some.injEq] at hvalue
    omega
  · cases hstatus

end Nachos.Net

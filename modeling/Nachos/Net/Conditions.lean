import Nachos.Net.Receive

/-!
# Condition variables of a server

What every condition variable of a server keeps, over any mails (`CVRule`): it has to hold of a
new one, and to stay when a client is queued with the `waitingLock` and when the first client is
taken out. The requests nested in these operations touch no condition variable.

`waitingLock` is `-1` exactly when the queue is empty (`waitingLock_exact`). So `serverDoSignal`,
which looks at the field only, finds a client in the queue. It holds on every server that a
Broadcast starts one of its Acquires on as well.
-/

namespace Nachos.Net

open Lib (Reachable)

/-! ## A rule -/

/-- The condition variable when `rest` is left of its queue. -/
def ServerCV.leave (cv : ServerCV) (rest : List Sender) : ServerCV :=
  { cv with q := rest, waitingLock := if rest = [] then none else cv.waitingLock }

/-- The operations on a condition variable keep `P`; a client may be queued with a lock if
`waits` says so. -/
structure CVRule (P : ServerCV → Prop) (waits : Sender → Nat → Prop) : Prop where
  fresh : ∀ name, P { name := name }
  count : ∀ cv n, P cv → P { cv with createCVCount := n }
  pop : ∀ cv x rest, P cv → cv.q = x :: rest → P (cv.leave rest)
  push : ∀ cv c lockID, P cv → waits c lockID →
    (cv.waitingLock = none ∨ cv.waitingLock = some lockID) →
    P { cv with waitingLock := some lockID, q := cv.q ++ [c] }

/-- All condition variables of the server have the property. -/
def AllCVs (P : ServerCV → Prop) (s : Server) : Prop := ∀ cv, some cv ∈ s.serverCVs.entries → P cv

namespace AllCVs

variable {P : ServerCV → Prop} {waits : Sender → Nat → Prop} {s : Server} {index : Option Nat}

theorem of_CVs (h : AllCVs P s) {s' : Server} (heq : s'.serverCVs = s.serverCVs) :
    AllCVs P s' := by
  unfold AllCVs
  rw [heq]
  exact h

theorem get (h : AllCVs P s) {cv : ServerCV} (hcv : s.serverCVs.get? index = some cv) : P cv :=
  h cv (Table.mem_of_get? hcv)

theorem put (h : AllCVs P s) {cv : ServerCV} (hcv : P cv) {s' : Server}
    (hs' : s'.serverCVs = s.serverCVs.put index cv) : AllCVs P s' := by
  intro cv' hcv'
  rw [hs'] at hcv'
  rcases Table.mem_put hcv' with rfl | hold
  · exact hcv
  · exact h cv' hold

/-- One turn of the loop of `serverDoBroadcast`, and the rest of it. -/
theorem broadcastLoop (hP : CVRule P waits) (h : AllCVs P s) {cv : ServerCV} {x : Sender}
    {rest : List Sender} (hcv : P (cv.leave (x :: rest))) (lockID : Nat) :
    AllCVs P (Net.broadcastLoop index cv lockID (x :: rest) s).1 := by
  induction rest generalizing x s with
  | nil =>
    have hpop := hP.pop _ x [] hcv rfl
    exact h.put hpop (wakeUp_CVs index cv x [] lockID s)
  | cons y rest ih =>
    have hpop := hP.pop _ x (y :: rest) hcv rfl
    exact ih (h.put hpop (wakeUp_CVs index cv x (y :: rest) lockID s)) hpop

theorem wait (hP : CVRule P waits) (h : AllCVs P s) {lockID : Nat} {c : Sender}
    (hc : waits c lockID) : AllCVs P (serverDoWait index lockID c s).1 := by
  unfold serverDoWait
  split
  · exact h
  · rename_i cv hcv
    by_cases hlock : cv.waitingLock = none ∨ cv.waitingLock = some lockID
    · have hset : (if cv.waitingLock = none then some lockID else cv.waitingLock) =
          some lockID := by
        rcases hlock with hnone | hsome
        · rw [if_pos hnone]
        · rw [hsome, if_neg (Option.some_ne_none lockID)]
      simp only [hset, ne_eq, not_true_eq_false, if_false]
      exact h.put (hP.push cv c lockID (h.get hcv) hc hlock)
        (startNested_CVs (r := .release lockID) rfl c _)
    · obtain ⟨hnone, hother⟩ := not_or.mp hlock
      simp only [if_neg hnone, ne_eq, hother, not_false_eq_true, if_true]
      exact h

/-- **A request keeps the property**, if it is a Wait that may be queued or no Wait. -/
theorem serverDo (hP : CVRule P waits) (h : AllCVs P s) (r : Request) (index : Option Nat)
    (c : Sender) (hc : ∀ CVID lockID, r = .wait CVID lockID → waits c lockID) :
    AllCVs P (serverDo r index c s).1 := by
  cases r with
  | createLock | createCondition | createMV => exact h
  | acquire lockID => exact h.of_CVs (serverDo_nestable_CVs (r := .acquire lockID) rfl index c s)
  | release lockID => exact h.of_CVs (serverDo_nestable_CVs (r := .release lockID) rfl index c s)
  | destroyLock lockID =>
    refine h.of_CVs ?_
    simp only [Net.serverDo, serverDoDestroyLock]
    split
    · rfl
    · exact checkLockAndDestroy_CVs _ _
  | wait CVID lockID => exact h.wait hP (hc CVID lockID rfl)
  | signal CVID lockID =>
    show AllCVs P (serverDoSignal index lockID c s).1
    unfold serverDoSignal
    split
    · exact h
    · rename_i cv hcv
      split
      · exact h
      · split
        · exact h
        · split
          · exact h
          · rename_i x rest hq
            exact h.put (hP.pop cv x rest (h.get hcv) hq) (wakeUp_CVs index cv x rest lockID s)
  | broadcast CVID lockID =>
    show AllCVs P (serverDoBroadcast index lockID c s).1
    unfold serverDoBroadcast
    split
    · exact h
    · rename_i cv hcv
      show AllCVs P (Net.broadcastLoop index cv lockID cv.q s).1
      cases hq : cv.q with
      | nil => exact h
      | cons x rest =>
        have hall : cv.leave (x :: rest) = cv := by
          unfold ServerCV.leave
          rw [← hq, if_neg (by rw [hq]; exact List.cons_ne_nil x rest)]
        exact h.broadcastLoop hP (hall.symm ▸ h.get hcv) lockID
  | destroyCondition CVID =>
    show AllCVs P (serverDoDestroyCV index s).1
    unfold serverDoDestroyCV
    split
    · exact h
    · rename_i cv hcv
      have hput : AllCVs P (s.putCV index { cv with createCVCount := cv.createCVCount - 1 }) :=
        h.put (hP.count cv (cv.createCVCount - 1) (h.get hcv)) rfl
      unfold checkCVAndDestroy
      split
      · exact hput
      · split
        · exact fun cv hcv => hput cv (Table.mem_remove hcv)
        · exact hput
  | destroyMV MVID =>
    refine h.of_CVs ?_
    simp only [Net.serverDo, serverDoDestroyMV]
    split
    · rfl
    · split <;> rfl
  | set MVID i value =>
    refine h.of_CVs ?_
    simp only [Net.serverDo, serverDoSet]
    split
    · rfl
    · split <;> rfl
  | get MVID i =>
    refine h.of_CVs ?_
    simp only [Net.serverDo, serverDoGet]
    split
    · rfl
    · split <;> rfl

theorem createBody (hP : CVRule P waits) (h : AllCVs P s) (r : Request) (c : Sender) :
    AllCVs P (createBody r c s).1 := by
  cases r with
  | createLock name =>
    refine h.of_CVs ?_
    show (createLockNamed name s).1.serverCVs = s.serverCVs
    unfold createLockNamed
    split
    · rfl
    · split <;> rfl
  | createCondition name =>
    show AllCVs P (createCVNamed name s).1
    unfold createCVNamed
    split
    · intro cv hcv
      rcases Table.mem_insert hcv with rfl | hold
      · exact hP.fresh name
      · exact h cv hold
    · split
      · rename_i index _ _ cv hcv
        have hput : (s.putCV (some index) { cv with createCVCount := cv.createCVCount + 1 }).serverCVs
            = s.serverCVs.put (some index) { cv with createCVCount := cv.createCVCount + 1 } := rfl
        exact h.put (hP.count cv (cv.createCVCount + 1) (h.get hcv)) hput
      · exact h
  | createMV name size =>
    refine h.of_CVs ?_
    show (createMV name size s).1.serverCVs = s.serverCVs
    unfold createMV
    split
    · rfl
    · split
      · split <;> rfl
      · rfl
  | _ => exact h

/-- **Handling a mail keeps the property**, if a Wait it runs may be queued. -/
theorem receive (hP : CVRule P waits) (h : AllCVs P s) (src : Nat) (body : Body)
    (hc : ∀ index c CVID lockID, body.runs s = some (index, c, .wait CVID lockID) →
      waits c lockID) : AllCVs P (receive src body s).1 := by
  cases hruns : body.runs s with
  | none =>
    refine receive_idle (R := fun s _ s' => AllCVs P s → AllCVs P s') ?_ ?_ ?_ src hruns h
    · exact fun _ _ _ _ _ hfirst hsecond hall => hsecond (hfirst hall)
    · exact fun _ _ _ hsame _ hall => hall.of_CVs hsame.CVs
    · exact fun r c _ s hall => hall.createBody hP r c
  | some e =>
    obtain ⟨index, c, r⟩ := e
    obtain ⟨-, s₁, pre, hbefore, -, -, hafter⟩ := receive_runs src hruns
    have hdone : AllCVs P (execute r index c s₁).1 := by
      apply (h.of_CVs hbefore.CVs).serverDo hP r index c
      rintro CVID lockID rfl
      exact hc index c CVID lockID hruns
    exact hdone.of_CVs hafter.CVs

end AllCVs

/-! ## The `waitingLock` -/

/-- The `waitingLock` is `-1` exactly when the queue is empty. -/
def ServerCV.Exact (cv : ServerCV) : Prop := cv.waitingLock = none ↔ cv.q = []

theorem exact_rule : CVRule ServerCV.Exact fun _ _ => True where
  fresh name := iff_of_true rfl rfl
  count cv n h := h
  pop cv x rest h hq := by
    have hsome : cv.waitingLock ≠ none := by
      intro hnone
      cases hq.symm.trans (h.mp hnone)
    show (if rest = [] then none else cv.waitingLock) = none ↔ rest = []
    by_cases hrest : rest = []
    · rw [if_pos hrest]
      exact iff_of_true rfl hrest
    · rw [if_neg hrest]
      exact iff_of_false hsome hrest
  push cv c lockID h _ _ := iff_of_false nofun (by simp)

/-- The servers on which the loop of `serverDoBroadcast` starts its acquires, in order. -/
def acquiresOn (CVID : Option Nat) (cv : ServerCV) (lockID : Nat) :
    List Sender → Server → List Server
  | [], _ => []
  | x :: rest, s =>
    s.putCV CVID (cv.leave rest) :: acquiresOn CVID cv lockID rest (wakeUp CVID cv x rest lockID s).1

theorem exact_acquiresOn {s : Server} {index : Option Nat} {cv : ServerCV} {lockID : Nat}
    {q : List Sender} (h : AllCVs ServerCV.Exact s) (hcv : (cv.leave q).Exact) :
    ∀ s' ∈ acquiresOn index cv lockID q s, AllCVs ServerCV.Exact s' := by
  induction q generalizing s with
  | nil => nofun
  | cons x rest ih =>
    have hpop := exact_rule.pop _ x rest hcv rfl
    have hleave : (cv.leave (x :: rest)).leave rest = cv.leave rest := rfl
    rw [hleave] at hpop
    intro s' hs'
    rcases List.mem_cons.mp hs' with rfl | hrest
    · exact h.put hpop rfl
    · exact ih (h.put hpop (wakeUp_CVs index cv x rest lockID s)) hpop s' hrest

/-- An Acquire that the server starts does not stop it. -/
theorem crash_not_mem_acquire (lockID : Nat) (c : Sender) (s : Server) :
    .crash ∉ (serverAcquireLock lockID c s).2 := by
  have hrun : ∀ index s, .crash ∉ (execute (.acquire lockID) index c s).2 := by
    intro index s hcrash
    have hcrash : .crash ∈ (serverDoAcquireLock index c s).2 := by
      simpa [execute, serverDo] using hcrash
    unfold serverDoAcquireLock at hcrash
    split at hcrash
    · simp [sendAnswer] at hcrash
    · split at hcrash
      · simp [sendAnswer] at hcrash
      · split at hcrash
        · simp at hcrash
        · simp [sendAnswer] at hcrash
  show .crash ∉ (serve c (.acquire lockID) s).2
  by_cases howner : owner lockID = s.netAddr
  · rw [serve_mine rfl c howner]
    exact hrun _ _
  · by_cases hothers : s.others = []
    · rw [serve_alone rfl c howner hothers]
      exact hrun _ _
    · rw [serve_away rfl c howner hothers]
      simp [askOthers]

/-- `serverDoSignal` finds a client in the queue when there is a `waitingLock`. -/
theorem crash_not_mem_signal {s : Server} (h : AllCVs ServerCV.Exact s) (index : Option Nat)
    (lockID : Nat) (c : Sender) : .crash ∉ (serverDoSignal index lockID c s).2 := by
  unfold serverDoSignal
  split
  · simp [sendAnswer]
  · rename_i cv hcv
    split
    · simp [sendAnswer]
    · rename_i waitingLock hlock
      split
      · simp [sendAnswer]
      · split
        · rename_i hempty
          cases hlock.symm.trans ((h.get hcv).mpr hempty)
        · rename_i x rest _
          have hacquire := crash_not_mem_acquire lockID x (s.putCV index (cv.leave rest))
          simpa [wakeUp, sendAnswer, ServerCV.leave] using hacquire

/-- A server handles one mail. -/
def Handles (s : Server) (m : Nat × Body) (s' : Server) : Prop := s' = (receive m.1 m.2 s).1

/-- **The `waitingLock` is exact** on a server that has handled any mails: for every condition
variable, and so with the tables it runs the next request on, for which Signal then finds a
client in the queue, and on each server that the loop of Broadcast starts an Acquire on, before
and after it. -/
theorem waitingLock_exact {i : Nat} {others : List Nat} {s : Server}
    (h : Reachable Handles { netAddr := i, others := others } s) :
    AllCVs ServerCV.Exact s ∧ ∀ s₁, SameTables s s₁ →
      (∀ index lockID c, .crash ∉ (serverDoSignal index lockID c s₁).2) ∧
      ∀ index cv lockID, s₁.serverCVs.get? index = some cv →
        ∀ s₂ ∈ acquiresOn index cv lockID cv.q s₁, AllCVs ServerCV.Exact s₂ ∧
          ∀ x, AllCVs ServerCV.Exact (serverAcquireLock lockID x s₂).1 := by
  have hall : AllCVs ServerCV.Exact s := by
    refine h.invariant (I := AllCVs ServerCV.Exact) nofun ?_
    rintro s m s' hs rfl
    exact hs.receive exact_rule m.1 m.2 fun _ _ _ _ _ => trivial
  refine ⟨hall, fun s₁ hsame => ⟨?_, fun index cv lockID hcv s₂ hs₂ => ?_⟩⟩
  · exact crash_not_mem_signal (hall.of_CVs hsame.CVs)
  · have hall₁ := hall.of_CVs hsame.CVs
    have hleave : cv.leave cv.q = cv := by
      unfold ServerCV.leave
      by_cases hq : cv.q = []
      · rw [if_pos hq, ← (hall₁.get hcv).mpr hq]
      · rw [if_neg hq]
    have hall₂ := exact_acquiresOn hall₁ (hleave.symm ▸ hall₁.get hcv) s₂ hs₂
    exact ⟨hall₂, fun x => hall₂.of_CVs (startNested_CVs (r := .acquire lockID) rfl x s₂)⟩

/-- Two clients of server 0 wait on one condition variable. -/
def twoWaiters : List (Nat × Body) :=
  ([(0, .createLock "l"), (0, .createCondition "v"), (0, .acquire 0), (0, .wait 0 0),
    (1, .acquire 0), (1, .wait 0 0)] : List (Nat × Request)).map fun e =>
      (5, .client ⟨5, e.1, 0⟩ e.2)

theorem waitingLock_exact_twoWaiters : ∃ s cv, s.serverCVs.get? (some 0) = some cv ∧
    cv.q = [⟨5, 0, 0⟩, ⟨5, 1, 0⟩] ∧ cv.waitingLock = some 0 ∧
    (acquiresOn (some 0) cv 0 cv.q s).length = 2 ∧
      ∀ s₂ ∈ acquiresOn (some 0) cv 0 cv.q s, AllCVs ServerCV.Exact s₂ := by
  have hrun : (Lib.execute (fun s m => some (receive m.1 m.2 s).1)
      { netAddr := 0, others := [] } twoWaiters).any (fun s =>
        (s.serverCVs.get? (some 0)).any fun cv => decide (cv.q = [⟨5, 0, 0⟩, ⟨5, 1, 0⟩] ∧
          cv.waitingLock = some 0 ∧ (acquiresOn (some 0) cv 0 cv.q s).length = 2)) = true := by
    decide +kernel
  obtain ⟨s, hs, hdec⟩ := (Option.any_eq_true _ _).mp hrun
  obtain ⟨cv, hcv, hdec⟩ := (Option.any_eq_true _ _).mp hdec
  obtain ⟨hq, hlock, hlength⟩ := of_decide_eq_true hdec
  have hreach : Reachable Handles { netAddr := 0, others := [] } s :=
    ⟨_, Lib.path_of_execute (fun _ _ _ heq => (Option.some.inj heq).symm) hs⟩
  have hacquires := ((waitingLock_exact hreach).2 s ⟨rfl, rfl, rfl, rfl, rfl⟩).2 (some 0) cv 0 hcv
  exact ⟨s, cv, hcv, hq, hlock, hlength, fun s₂ hs₂ => (hacquires s₂ hs₂).1⟩

end Nachos.Net

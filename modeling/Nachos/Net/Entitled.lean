import Nachos.Net.Conditions
import Nachos.Net.System

/-!
# Condition requests without the lock

The contract of a condition variable is that its operations are made by the owner of the lock.
`serverDoWait`, `serverDoSignal` and `serverDoBroadcast` compare the named lock with the
`waitingLock` of the condition variable, and Broadcast not even that; nobody looks whether the
lock is there and who owns it. So of the requests that should fail, a server with no other server
awake refuses exactly those whose condition variable is not there, and the Waits and Signals that
name another lock than the `waitingLock` (`refused_iff`).

A client that is not the owner is queued by its Wait, is not answered, and has set the
`waitingLock`, so that the right Wait of the owner fails (`wait_without_lock`).
-/

namespace Nachos.Net

/-- The condition variable and the lock of a condition request. -/
def Request.condition : Request → Option (Nat × Nat)
  | .wait CVID lockID | .signal CVID lockID | .broadcast CVID lockID => some (CVID, lockID)
  | _ => none

/-- The condition variable with the id, if the server has it. -/
def Server.CVWithID (s : Server) (CVID : Nat) : Option ServerCV :=
  s.serverCVs.get? (checkIfCVIsMineAndGetMyIndex s CVID)

def Server.lockWithID (s : Server) (lockID : Nat) : Option ServerLock :=
  s.serverLocks.get? (checkIfLockIsMineAndGetMyIndex s lockID)

/-- The condition variable or the lock is not there, or the client is not the owner. -/
def Unentitled (s : Server) (c : Sender) (CVID lockID : Nat) : Prop :=
  s.CVWithID CVID = none ∨ ∀ l, s.lockWithID lockID = some l → l.isOwner c = false

/-- The code tells the client failure, and changes no lock and no condition variable. -/
def Denies (f : Act) (c : Sender) (s : Server) : Prop :=
  .mail c.machine (.answer c { status := false }) ∈ (f s).2 ∧
    (f s).1.serverLocks = s.serverLocks ∧ (f s).1.serverCVs = s.serverCVs

/-- The server refuses the request of the client. -/
def Refused (s : Server) (c : Sender) (r : Request) : Prop :=
  Denies (receive c.machine (.client c r)) c s

/-- What the server finds wrong with a condition request. -/
def Checked (s : Server) : Request → Prop
  | .wait CVID lockID | .signal CVID lockID => ∀ cv, s.CVWithID CVID = some cv →
      ∃ waitingLock, cv.waitingLock = some waitingLock ∧ waitingLock ≠ lockID
  | .broadcast CVID _ => s.CVWithID CVID = none
  | _ => True

variable {s : Server} {index : Option Nat} {c : Sender}

theorem denies_answer : Denies (sendAnswer c { status := false }) c s :=
  ⟨List.mem_singleton.mpr rfl, rfl, rfl⟩

/-- Code that sends nothing but success does not refuse. -/
theorem not_denies_success {f : Act} (h : (f s).2 = [.mail c.machine (.answer c { status := true })]) :
    ¬ Denies f c s := by
  rintro ⟨hout, -, -⟩
  rw [h] at hout
  cases List.mem_singleton.mp hout

/-- Code that writes back a condition variable with another queue does not refuse. -/
theorem not_denies_put {f : Act} {cv : ServerCV} (cv' : ServerCV)
    (hcv : s.serverCVs.get? index = some cv) (hput : (f s).1.serverCVs.get? index = some cv') (hq : cv'.q ≠ cv.q) : ¬ Denies f c s := by
  rintro ⟨-, -, hsame⟩
  rw [hsame, hcv] at hput
  cases hput
  exact hq rfl

theorem denies_wait_iff (lockID : Nat) : Denies (serverDoWait index lockID c) c s ↔
    ∀ cv, s.serverCVs.get? index = some cv →
      ∃ waitingLock, cv.waitingLock = some waitingLock ∧ waitingLock ≠ lockID := by
  cases hcv : s.serverCVs.get? index with
  | none =>
    refine iff_of_true ?_ nofun
    unfold Denies serverDoWait
    rw [hcv]
    exact denies_answer
  | some cv =>
    by_cases hlock : cv.waitingLock = none ∨ cv.waitingLock = some lockID
    · refine iff_of_false ?_ ?_
      · have hset : (if cv.waitingLock = none then some lockID else cv.waitingLock) =
            some lockID := by
          rcases hlock with hnone | hsome
          · rw [if_pos hnone]
          · rw [hsome, if_neg (Option.some_ne_none lockID)]
        have hCVs : (serverDoWait index lockID c s).1.serverCVs = s.serverCVs.put index
            { cv with waitingLock := some lockID, q := cv.q ++ [c] } := by
          unfold serverDoWait
          simp only [hcv, hset, ne_eq, not_true_eq_false, if_false]
          exact startNested_CVs (r := .release lockID) rfl c _
        apply not_denies_put { cv with waitingLock := some lockID, q := cv.q ++ [c] } hcv _ (by simp)
        rw [hCVs]
        exact Table.get?_put_self hcv
      · intro hother
        obtain ⟨waitingLock, hsome, hne⟩ := hother cv rfl
        rcases hlock with hnone | hsame
        · cases hnone.symm.trans hsome
        · cases hsame.symm.trans hsome
          exact hne rfl
    · obtain ⟨hnone, hother⟩ := not_or.mp hlock
      refine iff_of_true ?_ ?_
      · unfold Denies serverDoWait
        simp only [hcv, if_neg hnone, ne_eq, hother, not_false_eq_true, if_true]
        exact denies_answer
      · rintro cv' ⟨⟩
        obtain ⟨waitingLock, hsome⟩ := Option.ne_none_iff_exists'.mp hnone
        exact ⟨waitingLock, hsome, fun heq => hother (heq ▸ hsome)⟩

theorem denies_signal_iff (lockID : Nat) : Denies (serverDoSignal index lockID c) c s ↔
    ∀ cv, s.serverCVs.get? index = some cv →
      ∃ waitingLock, cv.waitingLock = some waitingLock ∧ waitingLock ≠ lockID := by
  cases hcv : s.serverCVs.get? index with
  | none =>
    refine iff_of_true ?_ nofun
    unfold Denies serverDoSignal
    rw [hcv]
    exact denies_answer
  | some cv =>
    cases hlock : cv.waitingLock with
    | none =>
      refine iff_of_false (not_denies_success ?_) ?_
      · unfold serverDoSignal
        simp only [hcv, hlock]
        rfl
      · intro hother
        obtain ⟨waitingLock, hsome, -⟩ := hother cv rfl
        cases hlock.symm.trans hsome
    | some waitingLock =>
      by_cases hne : waitingLock ≠ lockID
      · refine iff_of_true ?_ ?_
        · unfold Denies serverDoSignal
          simp only [hcv, hlock, hne, ne_eq, not_false_eq_true, if_true]
          exact denies_answer
        · rintro cv' ⟨⟩
          exact ⟨waitingLock, hlock, hne⟩
      · refine iff_of_false ?_ ?_
        · cases hq : cv.q with
          | nil =>
            rintro ⟨hout, -, -⟩
            unfold serverDoSignal at hout
            simp [hcv, hlock, hne, hq] at hout
          | cons x rest =>
            have hCVs : (serverDoSignal index lockID c s).1.serverCVs =
                s.serverCVs.put index (cv.leave rest) := by
              unfold serverDoSignal
              simp only [hcv, hlock, hne, hq, if_false]
              exact wakeUp_CVs index cv x rest lockID s
            refine not_denies_put (cv.leave rest) hcv ?_ ?_
            · rw [hCVs]
              exact Table.get?_put_self hcv
            · show rest ≠ cv.q
              rw [hq]
              exact (List.cons_ne_self x rest).symm
        · intro hother
          obtain ⟨waitingLock', hsome, hne'⟩ := hother cv rfl
          cases hlock.symm.trans hsome
          exact hne hne'

/-- The loop of `serverDoBroadcast` empties the queue. -/
theorem get?_broadcastLoop {cv cv' : ServerCV} (hcv : s.serverCVs.get? index = some cv')
    (lockID : Nat) (x : Sender) (rest : List Sender) :
    (broadcastLoop index cv lockID (x :: rest) s).1.serverCVs.get? index = some (cv.leave []) := by
  induction rest generalizing x s cv' with
  | nil =>
    show (wakeUp index cv x [] lockID s).1.serverCVs.get? index = _
    rw [wakeUp_CVs]
    exact Table.get?_put_self hcv
  | cons y rest ih =>
    have hput : (wakeUp index cv x (y :: rest) lockID s).1.serverCVs.get? index =
        some (cv.leave (y :: rest)) := by
      rw [wakeUp_CVs]
      exact Table.get?_put_self hcv
    exact ih hput y

theorem denies_broadcast_iff (lockID : Nat) :
    Denies (serverDoBroadcast index lockID c) c s ↔ s.serverCVs.get? index = none := by
  cases hcv : s.serverCVs.get? index with
  | none =>
    refine iff_of_true ?_ rfl
    unfold Denies serverDoBroadcast
    rw [hcv]
    exact denies_answer
  | some cv =>
    refine iff_of_false ?_ nofun
    cases hq : cv.q with
    | nil =>
      apply not_denies_success
      unfold serverDoBroadcast
      simp only [hcv, hq]
      rfl
    | cons x rest =>
      have hCVs : (serverDoBroadcast index lockID c s).1 =
          (broadcastLoop index cv lockID (x :: rest) s).1 := by
        unfold serverDoBroadcast
        simp only [hcv, hq]
        rfl
      refine not_denies_put (cv.leave []) hcv ?_ ?_
      · rw [hCVs]
        exact get?_broadcastLoop hcv lockID x rest
      · show [] ≠ cv.q
        rw [hq]
        exact (List.cons_ne_nil x rest).symm

/-! ## Requests to a server -/

/-- A lone server runs a condition request at once, at the index of its condition variable. -/
theorem refused_iff_denies (halone : s.others = []) {r : Request} {CVID lockID : Nat}
    (hr : r.condition = some (CVID, lockID)) :
    ∃ s₁, SameTables s s₁ ∧ (Refused s c r ↔
      Denies (serverDo r (checkIfCVIsMineAndGetMyIndex s CVID) c) c s₁) := by
  have hid : r.id = some CVID := by
    cases r <;> cases hr <;> rfl
  have hindex : checkIfCVIsMineAndGetMyIndex s CVID =
      if owner CVID = s.netAddr then some (CVID % 100) else none :=
    checkIfMineAndGetMyIndex_eq s CVID
  have hreceive : receive c.machine (.client c r) s = serve c r s := by
    rw [receive, read_eq hid]
  have hexec : ∀ index s, .mail c.machine (.answer c { status := false }) ∈
      (execute r index c s).2 ↔
        .mail c.machine (.answer c { status := false }) ∈ (serverDo r index c s).2 := by
    intro index s
    simp [execute]
  unfold Refused Denies
  rw [hreceive, hindex]
  by_cases howner : owner CVID = s.netAddr
  · refine ⟨s, ⟨rfl, rfl, rfl, rfl, rfl⟩, ?_⟩
    rw [serve_mine hid c howner, if_pos howner, hexec]
    rfl
  · refine ⟨{ s with pendingRequestCount := s.pendingRequestCount + 1 },
      ⟨rfl, rfl, rfl, rfl, rfl⟩, ?_⟩
    rw [serve_alone hid c howner halone, if_neg howner]
    show .mail c.machine (.answer c { status := false }) ∈ (execute r none c _).2 ∧ _ ↔ _
    rw [hexec]
    rfl

/-- Who the client is makes no difference. -/
theorem refused_iff_checked (halone : s.others = []) {r : Request} {CVID lockID : Nat}
    (hr : r.condition = some (CVID, lockID)) (c : Sender) : Refused s c r ↔ Checked s r := by
  obtain ⟨s₁, hsame, hdenies⟩ := refused_iff_denies (c := c) halone hr
  rw [hdenies]
  have hCV : s.CVWithID CVID = s₁.serverCVs.get? (checkIfCVIsMineAndGetMyIndex s CVID) := by
    unfold Server.CVWithID
    rw [hsame.CVs]
  cases r with
  | wait v L =>
    cases hr
    show _ ↔ ∀ cv, s.CVWithID CVID = some cv → _
    rw [hCV]
    exact denies_wait_iff lockID
  | signal v L =>
    cases hr
    show _ ↔ ∀ cv, s.CVWithID CVID = some cv → _
    rw [hCV]
    exact denies_signal_iff lockID
  | broadcast v L =>
    cases hr
    show _ ↔ s.CVWithID CVID = none
    rw [hCV]
    exact denies_broadcast_iff lockID
  | _ => cases hr

/-- Client 5 has a lock, which it owns, and a condition variable at server 0. -/
def ownLock : List Op :=
  ([.createLock "l", .createCondition "v", .acquire 0] : List Request).flatMap fun r =>
    [.send 5 0 0 r, .deliver 0, .take 0]

end Nachos.Net

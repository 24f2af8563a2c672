import Nachos.Lib.Path
import Nachos.Net.Server

/-!
# Clients, servers and the mails between them

The system of any awake subset of the five servers and any number of client threads.
`mails` holds what is on its way, in the order it was sent. A step sends a client request,
delivers a mail to its server, or hands a client the answer it was sent. The channels are
reliable; a run in which each delivered mail is the oldest between its two machines
(`Fifo`) is one over FIFO channels.

These steps deliver all that the servers hand to `PostOffice::Send`. Its `ASSERT`s, which stop
a machine, are added in `Nachos.Net.Post`.
-/

namespace Nachos.Net

/-- A mail on its way between two machines. -/
structure Mail where
  src : Nat
  dst : Nat
  body : Body
  deriving DecidableEq, Repr

/-- The whole system. `nextTag`, `sent` and `log` are auxiliary: they number the requests of
the clients, list them, and list what each server did. -/
structure Network where
  awake : List Nat
  server : Nat → Server
  mails : List Mail := []
  nextTag : Nat := 0
  sent : List (Sender × Request) := []
  log : List (Nat × Out) := []

/-- The servers with the ids in `up` have just started. -/
def Network.init (up : Nat → Bool) : Network where
  awake := (List.range 5).filter up
  server := fun i => { netAddr := i, others := ((List.range 5).filter up).filter (· ≠ i) }

/-- The mails among what a server did. -/
def mailsOf (src : Nat) (out : List Out) : List Mail :=
  out.filterMap fun
    | .mail dst body => some ⟨src, dst, body⟩
    | _ => none

/-- The server `i` runs a piece of code; its mails join those on their way. -/
def Network.run (n : Network) (i : Nat) (f : Act) : Network :=
  { n with
    server := Function.update n.server i (f (n.server i)).1
    mails := n.mails ++ mailsOf i (f (n.server i)).2
    log := n.log ++ (f (n.server i)).2.map (i, ·) }

/-- The steps of the system. -/
inductive Op where
  /-- A client thread sends a request to a server. -/
  | send (machine mailbox dst : Nat) (r : Request)
  /-- The `i`-th mail reaches its server, which handles it. -/
  | deliver (i : Nat)
  /-- The `i`-th mail reaches its client. -/
  | take (i : Nat)
  deriving Repr

/-- One step; `none` where it is not possible. -/
def Network.next (n : Network) : Op → Option Network
  | .send machine mailbox dst r =>
    if 5 ≤ machine ∧ dst ∈ n.awake then
      some { n with
        mails := n.mails ++ [⟨machine, dst, .client ⟨machine, mailbox, n.nextTag⟩ r⟩]
        nextTag := n.nextTag + 1
        sent := n.sent ++ [(⟨machine, mailbox, n.nextTag⟩, r)] }
    else none
  | .deliver i =>
    match n.mails[i]? with
    | none => none
    | some m =>
      if m.dst ∈ n.awake then
        some (({ n with mails := n.mails.eraseIdx i } : Network).run m.dst
          (receive m.src m.body))
      else none
  | .take i =>
    match n.mails[i]? with
    | none => none
    | some m => if 5 ≤ m.dst then some { n with mails := n.mails.eraseIdx i } else none

def NetStep (n : Network) (op : Op) (n' : Network) : Prop := n.next op = some n'

/-- No older mail between the same two machines is still on its way. -/
def Fifo (n : Network) : Op → Prop
  | .send _ _ _ _ => True
  | .deliver i | .take i =>
    (n.mails.take i).all (fun m' => (n.mails[i]?).all fun m =>
      !(decide (m'.src = m.src) && decide (m'.dst = m.dst))) = true

instance (n : Network) : (op : Op) → Decidable (Fifo n op)
  | .send _ _ _ _ => .isTrue trivial
  | .deliver _ | .take _ => inferInstanceAs (Decidable (_ = _))

/-! ## What a step can do -/

/-- The network with other mails on their way. -/
def Network.withMails (n : Network) (mails : List Mail) : Network := { n with mails := mails }

/-- One case per kind of step. -/
inductive StepSpec (n : Network) : Op → Network → Prop where
  | send {machine mailbox dst r} (hmachine : 5 ≤ machine) (hdst : dst ∈ n.awake) :
      StepSpec n (.send machine mailbox dst r) { n with
        mails := n.mails ++ [⟨machine, dst, .client ⟨machine, mailbox, n.nextTag⟩ r⟩]
        nextTag := n.nextTag + 1
        sent := n.sent ++ [(⟨machine, mailbox, n.nextTag⟩, r)] }
  | deliver {l₁ m l₂} (hmails : n.mails = l₁ ++ m :: l₂) (hdst : m.dst ∈ n.awake) :
      StepSpec n (.deliver l₁.length)
        ((n.withMails (l₁ ++ l₂)).run m.dst (receive m.src m.body))
  | take {l₁ m l₂} (hmails : n.mails = l₁ ++ m :: l₂) (hdst : 5 ≤ m.dst) :
      StepSpec n (.take l₁.length) (n.withMails (l₁ ++ l₂))

theorem getElem?_split {α : Type} {l : List α} {i : Nat} {a : α} (h : l[i]? = some a) :
    ∃ l₁ l₂, l = l₁ ++ a :: l₂ ∧ i = l₁.length ∧ l.eraseIdx i = l₁ ++ l₂ := by
  obtain ⟨hi, rfl⟩ := List.getElem?_eq_some_iff.mp h
  refine ⟨l.take i, l.drop (i + 1), ?_, ?_, List.eraseIdx_eq_take_drop_succ l i⟩
  · rw [List.getElem_cons_drop, List.take_append_drop]
  · rw [List.length_take]
    omega

/-- What is left when one mail is taken out was there before. -/
theorem mem_of_mem_remove {α : Type} {l₁ l₂ : List α} {a b : α} (h : b ∈ l₁ ++ l₂) :
    b ∈ l₁ ++ a :: l₂ := by
  simp only [List.mem_append, List.mem_cons] at h ⊢
  exact h.imp_right .inr

/-- **Every step is one of the cases of `StepSpec`.** -/
theorem netStep_spec {n n' : Network} {op : Op} (h : NetStep n op n') : StepSpec n op n' := by
  unfold NetStep at h
  cases op with
  | send machine mailbox dst r =>
    simp only [Network.next] at h
    split at h
    · rename_i hok
      cases h
      exact .send hok.1 hok.2
    · cases h
  | deliver i =>
    simp only [Network.next] at h
    cases hm : n.mails[i]? with
    | none => simp [hm] at h
    | some m =>
      obtain ⟨l₁, l₂, hl, rfl, herase⟩ := getElem?_split hm
      simp only [hm] at h
      split at h
      · rename_i hdst
        cases h
        rw [herase]
        exact .deliver hl hdst
      · cases h
  | take i =>
    simp only [Network.next] at h
    cases hm : n.mails[i]? with
    | none => simp [hm] at h
    | some m =>
      obtain ⟨l₁, l₂, hl, rfl, herase⟩ := getElem?_split hm
      simp only [hm] at h
      split at h
      · rename_i hdst
        cases h
        rw [herase]
        exact .take hl hdst
      · cases h

theorem netStep_awake {n n' : Network} {op : Op} (h : NetStep n op n') : n'.awake = n.awake := by
  cases netStep_spec h <;> rfl

end Nachos.Net

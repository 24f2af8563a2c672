import Nachos.Net.Codec
import Nachos.Net.Handed

/-!
# The lengths of the mails

`PostOffice::Send` stops the machine when a text does not fit into a mail. The clients'
texts always fit. What the servers write for a request is longer by its number and by the
client, and a reply is longer than the request it answers: whether these fit depends on how
many digits the number and the arguments have (`server_mails_fit_iff`).

The count needs two facts about every request that is on its way or pending: the client's
machine and mailbox have one digit each, and the name has no NUL (`Within`).
-/

namespace Nachos.Net

open Lib.Stream

def MaxWireSize : Nat := 64

/-- Both headers are three `int`s. -/
def sizeofHeader : Nat := 12

def MaxPacketSize : Nat := MaxWireSize - sizeofHeader

def MaxMailSize : Nat := MaxPacketSize - sizeofHeader

/-- The text passes the `ASSERT` of `PostOffice::Send`, with the `length` of its senders. -/
def Fits (text : List Char) : Prop := text.length + 1 ≤ MaxMailSize

instance (text : List Char) : Decidable (Fits text) := inferInstanceAs (Decidable (_ ≤ _))

theorem fits_iff {text : List Char} : Fits text ↔ text.length ≤ 39 := by
  change text.length + 1 ≤ 40 ↔ _
  omega

/-! ## Lengths of fields -/

theorem length_putNat_le {n k : Nat} (hk : 0 < k) (hn : n < 10 ^ k) : (putNat n).length ≤ k :=
  (Nat.length_toDigits_le_iff (by decide) hk).mpr hn

theorem length_putNat_pos (n : Nat) : 0 < (putNat n).length :=
  List.length_pos_iff.mpr (putNat_ne_nil n)

theorem length_putNat_digit {n : Nat} (hn : n < 10) : (putNat n).length = 1 := by
  have hpos := length_putNat_pos n
  have hle : (putNat n).length ≤ 1 := length_putNat_le (by decide) (by omega)
  omega

theorem length_putNat_int {n : Nat} (hn : FitsInt n) : (putNat n).length ≤ 10 := by
  apply length_putNat_le (by decide)
  have hlt := hn.2
  omega

theorem length_putInt_int {z : Int} (hz : FitsInt z) : (putInt z).length ≤ 11 := by
  obtain ⟨hlow, hhigh⟩ := hz
  have hnat : (putNat z.natAbs).length ≤ 10 := length_putNat_le (by decide) (by omega)
  unfold putInt
  split
  · rw [List.length_cons]
    omega
  · omega

theorem length_join_cons {w : List Char} {ws : List (List Char)} (h : ws ≠ []) :
    (join (w :: ws)).length = w.length + 1 + (join ws).length := by
  rw [join_cons h, List.length_append, List.length_cons]
  omega

theorem length_putNat_type (r : Request) : (putNat r.type).length = 2 := by
  have hrange : 10 ≤ r.type ∧ r.type < 100 := by cases r <;> simp [Request.type]
  have hle : (putNat r.type).length ≤ 2 := length_putNat_le (by decide) hrange.2
  have hgt : ¬ (putNat r.type).length ≤ 1 := by
    rw [putNat, Nat.length_toDigits_le_iff (by decide) (by decide)]
    omega
  omega

theorem length_putNat_bool (b : Bool) : (putNat b.toNat).length = 1 := by
  cases b <;> decide

theorem length_cString_le (t : List Char) : (cString t).length ≤ t.length :=
  (List.takeWhile_sublist _).length_le

/-! ## The texts -/

/-- How long the arguments of the request are. -/
def Request.argsLength (r : Request) : Nat := (join (putArgs r)).length

/-- A call that the client syscalls let through has at most 33 characters of arguments. -/
theorem argsLength_le {r : Request} (h : Passed r) : r.argsLength ≤ 33 := by
  have hnat : ∀ n : Nat, (n : Int) ∈ r.numbers → (putNat n).length ≤ 10 :=
    fun n hn => length_putNat_int (h.numbers n hn)
  have hname : ∀ name, name ∈ r.name? → name.toList.length ≤ 20 := by
    intro name hmem
    rw [String.length_toList]
    exact (h.name name hmem).1
  cases r with
  | createLock name | createCondition name =>
    have hlen := hname name rfl
    show name.toList.length ≤ 33
    omega
  | acquire id | release id | destroyLock id | destroyCondition id | destroyMV id =>
    have hid := hnat id List.mem_cons_self
    show (putNat id).length ≤ 33
    omega
  | wait a b | signal a b | broadcast a b | get a b =>
    have ha := hnat a List.mem_cons_self
    have hb := hnat b (List.mem_cons_of_mem _ List.mem_cons_self)
    rw [Request.argsLength, putArgs, length_join_cons (List.cons_ne_nil _ _), join]
    omega
  | createMV name size =>
    have hlen := hname name rfl
    have hsize := hnat size List.mem_cons_self
    rw [Request.argsLength, putArgs, length_join_cons (List.cons_ne_nil _ _), join]
    omega
  | set MVID index value =>
    have hMVID := hnat MVID List.mem_cons_self
    have hindex := hnat index (List.mem_cons_of_mem _ List.mem_cons_self)
    have hvalue := length_putInt_int (h.numbers value (by simp [Request.numbers]))
    rw [Request.argsLength, putArgs, length_join_cons (List.cons_ne_nil _ _),
      length_join_cons (List.cons_ne_nil _ _), join]
    omega

/-- **Every text of a client fits.** -/
theorem fits_clientText {r : Request} (h : Passed r) : Fits (clientText r) := by
  have hargs := argsLength_le h
  have hcut : (clientText r).length ≤ (join (putNat r.type :: putArgs r)).length :=
    length_cString_le _
  rw [length_join_cons (putArgs_ne_nil r), length_putNat_type] at hcut
  rw [fits_iff]
  unfold Request.argsLength at hargs
  omega

/-- A client whose machine and mailbox have one digit. -/
def Sender.Small (c : Sender) : Prop := c.machine < 10 ∧ c.mailbox < 10

instance (c : Sender) : Decidable c.Small := inferInstanceAs (Decidable (_ ∧ _))

section Texts

variable {c : Sender} {r : Request} (hc : c.Small) (hr : r.NoNul) (requestID : Nat)

include hc

theorem length_join_header (request : Bool) {ws : List (List Char)} (hws : ws ≠ []) :
    (join (putHeader request requestID c r ++ ws)).length =
      10 + (putNat requestID).length + (join ws).length := by
  simp only [putHeader, List.cons_append, List.nil_append]
  rw [length_join_cons (by simp), length_join_cons (by simp), length_join_cons (by simp),
    length_join_cons (by simp), length_join_cons hws, length_putNat_type, length_putNat_bool,
    length_putNat_digit hc.1, length_putNat_digit hc.2]
  omega

include hr

theorem fits_requestText :
    Fits (requestText requestID c r) ↔ (putNat requestID).length + r.argsLength ≤ 29 := by
  rw [fits_iff, requestText_eq hr, length_join_header hc _ _ (putArgs_ne_nil r)]
  unfold Request.argsLength
  omega

theorem fits_replyText (response : Bool) : Fits (replyText requestID c r response) ↔
    (putNat requestID).length + r.argsLength ≤ 27 := by
  rw [fits_iff, replyText_eq hr, length_join_header hc _ _ (by simp),
    join_concat (putArgs_ne_nil r), List.length_append, List.length_cons, length_putNat_bool]
  unfold Request.argsLength
  omega

end Texts

/-! ## The texts of a run -/

/-- The clients' calls of a run: what the syscalls let through, by clients with one digit
for the machine and one for the mailbox. -/
def Calls (_ : Network) : Op → Prop
  | .send machine mailbox _ r => machine < 10 ∧ mailbox < 10 ∧ Passed r
  | .deliver _ | .take _ => True

/-- What the count needs to know of a run. -/
structure Within (n : Network) : Prop where
  calls : ∀ e ∈ n.sent, Passed e.2
  numbered : Numbered n
  handed : Handed (fun c r => c.Small ∧ r.NoNul) Sender.Small n

theorem within_init (up : Nat → Bool) : Within (.init up) where
  calls _ h := by cases h
  numbered := numbered_init up
  handed := handed_init _ _ up

theorem noNul_read (r : Request) : r.read.NoNul := by
  have hword : ∀ text : String, Char.ofNat 0 ∉ (readName text).toList := by
    intro text hmem
    rw [readName, String.toList_ofList, getWord] at hmem
    have hdrop := (List.dropWhile_sublist _).subset ((List.takeWhile_sublist _).subset hmem)
    exact not_nul_cString _ hdrop
  intro name hname
  cases r <;> simp only [Request.read, Request.name?, Option.mem_def, Option.some.injEq,
    reduceCtorEq] at hname <;> rw [← hname] <;> exact hword _

theorem noNul_nestable {r : Request} (h : r.nestable = true) : r.NoNul := by
  intro name hname
  cases r with
  | createLock | createCondition | createMV => cases h
  | _ => cases hname

/-- **Every step of a run of such calls keeps the bounds.** -/
theorem within_step {n n' : Network} {op : Op} (h : Within n)
    (hstep : Lib.Restrict NetStep Calls n op n') : Within n' := by
  obtain ⟨hstep, hcall⟩ := hstep
  refine ⟨?_, numbered_step h.numbered hstep, h.handed.step
    (fun c r hr hc => ⟨hc, noNul_nestable hr⟩) (fun _ _ _ hr => hr.1) h.numbered ?_ hstep⟩
  · cases netStep_spec hstep with
    | send =>
      intro e he
      rcases List.mem_append.mp he with he | he
      · exact h.calls e he
      · rw [List.mem_singleton.mp he]
        exact hcall.2.2
    | deliver | take => exact h.calls
  · rintro machine mailbox dst r rfl
    exact ⟨⟨hcall.1, hcall.2.1⟩, noNul_read r⟩

/-- **The mails of a run.** Every text of a client fits. What a server sends fits exactly
when the number of the request and its arguments leave room for the rest of the text: ten
characters and the NUL in a request, two more in a reply. -/
theorem server_mails_fit_iff {up : Nat → Bool} {n : Network}
    (h : Lib.Reachable (Lib.Restrict NetStep Calls) (.init up) n) :
    (∀ e ∈ n.sent, Fits (clientText e.2)) ∧
      (∀ j dst requestID c r, (j, Out.mail dst (.request requestID c r)) ∈ n.log →
        (Fits (requestText requestID c r) ↔ (putNat requestID).length + r.argsLength ≤ 29)) ∧
      ∀ j dst requestID c r response,
        (j, Out.mail dst (.reply requestID c r response)) ∈ n.log →
        (Fits (replyText requestID c r response) ↔
          (putNat requestID).length + r.argsLength ≤ 27) := by
  have hwithin : Within n := h.invariant (within_init up) fun _ _ _ hI hstep => within_step hI hstep
  refine ⟨fun e he => fits_clientText (hwithin.calls e he), ?_, ?_⟩
  · intro j dst requestID c r ho
    obtain ⟨hc, hr⟩ := hwithin.handed.log _ ho
    exact fits_requestText hc hr requestID
  · intro j dst requestID c r response ho
    obtain ⟨hc, hr⟩ := hwithin.handed.log _ ho
    exact fits_replyText hc hr requestID response

instance (r : Request) : Decidable (Passed r) :=
  decidable_of_iff ((∀ z ∈ r.numbers, FitsInt z) ∧
    (∀ name ∈ r.name?, name.length ≤ MaxNameLen ∧ ' ' ∉ name.toList) ∧
    (match r with
    | .createMV _ size => decide (0 < size)
    | _ => true) = true) <| by
  constructor
  · rintro ⟨hnumbers, hname, hsize⟩
    refine ⟨hnumbers, hname, ?_⟩
    rintro name size rfl
    exact of_decide_eq_true hsize
  · rintro ⟨hnumbers, hname, hsize⟩
    refine ⟨hnumbers, hname, ?_⟩
    cases r with
    | createMV name size => exact decide_eq_true (hsize name size rfl)
    | _ => rfl

instance (n : Network) : (op : Op) → Decidable (Calls n op)
  | .send _ _ _ _ => inferInstanceAs (Decidable (_ ∧ _))
  | .deliver _ | .take _ => .isTrue trivial

/-- Server 0 is asked for a Set of a variable of server 1 and sends it on; server 1 replies. -/
def setRun (MVID index : Nat) (value : Int) : List Op :=
  [.send 5 1 0 (.set MVID index value), .deliver 0, .deliver 0]

theorem server_mails_fit_set :
    ∃ n, Lib.Reachable (Lib.Restrict NetStep Calls) (.init fun i => decide (i < 2)) n ∧
      (1, Out.mail 0 (.reply 0 ⟨5, 1, 0⟩ (.set 100 3 (-7)) true)) ∈ n.log ∧
      Fits (replyText 0 ⟨5, 1, 0⟩ (.set 100 3 (-7)) true) := by
  have hrun : (Lib.execute (Lib.guarded Network.next Calls) (.init fun i => decide (i < 2))
      (setRun 100 3 (-7))).any (fun n => decide
        ((1, Out.mail 0 (.reply 0 ⟨5, 1, 0⟩ (.set 100 3 (-7)) true)) ∈ n.log)) = true := by
    decide +kernel
  obtain ⟨n, hn, hdec⟩ := (Option.any_eq_true _ _).mp hrun
  have hreach : Lib.Reachable (Lib.Restrict NetStep Calls) (.init fun i => decide (i < 2)) n :=
    Lib.reachable_of_guarded (fun _ _ _ => id) hn
  have hlog := of_decide_eq_true hdec
  exact ⟨n, hreach, hlog,
    ((server_mails_fit_iff hreach).2.2 1 0 0 ⟨5, 1, 0⟩ _ true hlog).mpr (by decide +kernel)⟩

/-- With the largest numbers the first request that server 0 sends on does not fit, and the
`ASSERT` stops it. -/
theorem set_of_large_numbers_stops_server :
    ∃ n, Lib.Reachable (Lib.Restrict NetStep Calls) (.init fun i => decide (i < 2)) n ∧
      (0, Out.mail 1 (.request 0 ⟨5, 1, 0⟩ (.set (2 ^ 31 - 1) (2 ^ 31 - 1) (-2 ^ 31)))) ∈ n.log ∧
      ¬ Fits (requestText 0 ⟨5, 1, 0⟩ (.set (2 ^ 31 - 1) (2 ^ 31 - 1) (-2 ^ 31))) := by
  have hrun : (Lib.execute (Lib.guarded Network.next Calls) (.init fun i => decide (i < 2))
      ((setRun (2 ^ 31 - 1) (2 ^ 31 - 1) (-2 ^ 31)).take 2)).any (fun n => decide
        ((0, Out.mail 1 (.request 0 ⟨5, 1, 0⟩
          (.set (2 ^ 31 - 1) (2 ^ 31 - 1) (-2 ^ 31)))) ∈ n.log)) = true := by
    decide +kernel
  obtain ⟨n, hn, hdec⟩ := (Option.any_eq_true _ _).mp hrun
  exact ⟨n, Lib.reachable_of_guarded (fun _ _ _ => id) hn, of_decide_eq_true hdec,
    by decide +kernel⟩

end Nachos.Net

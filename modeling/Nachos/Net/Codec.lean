import Nachos.Net.Numbering

/-!
# The texts of the mails

The client syscalls of `userprog/exception.cc`, `sendPendingRequest` and the replies of
`Server()` write a request as decimal numbers and a name with blanks between them, and
`Server()` reads it back with `>>`. The rest of the development works on the fields; here
the texts are written and read as the source does it.

`putArgs` is what all three write for the kind of the request, and `getArgs` what both
branches of `Server()` read for it. The server that a client contacts reads `Request.read`
of what the client passed; a name survives that, and the way back of a reply, exactly when
it is not empty and has no white space in it.
-/

namespace Nachos.Net

open Lib.Stream

/-! ## Writing -/

/-- The number of the syscall: `SC_CreateLock` and so on. -/
def Request.type : Request → Nat
  | .createLock _ => 13
  | .acquire _ => 14
  | .release _ => 15
  | .destroyLock _ => 16
  | .createCondition _ => 17
  | .wait _ _ => 18
  | .signal _ _ => 19
  | .broadcast _ _ => 20
  | .destroyCondition _ => 21
  | .createMV _ _ => 24
  | .destroyMV _ => 25
  | .get _ _ => 26
  | .set _ _ _ => 27

/-- The arguments in the order in which they are written. -/
def putArgs : Request → List (List Char)
  | .createLock name | .createCondition name => [name.toList]
  | .acquire id | .release id | .destroyLock id | .destroyCondition id | .destroyMV id =>
    [putNat id]
  | .wait CVID lockID | .signal CVID lockID | .broadcast CVID lockID =>
    [putNat CVID, putNat lockID]
  | .createMV name size => [putNat size, name.toList]
  | .get MVID index => [putNat MVID, putNat index]
  | .set MVID index value => [putNat MVID, putNat index, putInt value]

/-- A text handed on with `c_str()` ends at the first NUL. -/
def cString (text : List Char) : List Char := text.takeWhile (· ≠ Char.ofNat 0)

/-- The text of a client syscall. -/
def clientText (r : Request) : List Char := cString (join (putNat r.type :: putArgs r))

/-- What the servers write before the arguments: the type, whether it is a request, the
number of the request and the client. -/
def putHeader (request : Bool) (requestID : Nat) (c : Sender) (r : Request) : List (List Char) :=
  [putNat r.type, putNat request.toNat, putNat requestID, putNat c.machine, putNat c.mailbox]

/-- The text of `sendPendingRequest`. -/
def requestText (requestID : Nat) (c : Sender) (r : Request) : List Char :=
  cString (join (putHeader true requestID c r ++ putArgs r))

/-- The text of a YES or NO. -/
def replyText (requestID : Nat) (c : Sender) (r : Request) (response : Bool) : List Char :=
  cString (join (putHeader false requestID c r ++ (putArgs r ++ [putNat response.toNat])))

/-! ## Reading -/

/-- `ss >> n` where the number is not negative. -/
def getNat (text : List Char) : Option (Nat × List Char) :=
  (getInt text).bind fun (z, rest) => if 0 ≤ z then some (z.toNat, rest) else none

/-- `ss >> b` for a `bool`. -/
def getBool (text : List Char) : Option (Bool × List Char) :=
  (getInt text).bind fun (z, rest) =>
    if z = 0 then some (false, rest) else if z = 1 then some (true, rest) else none

/-- The arguments of the kind `which`. A name that is missing stays empty. -/
def getArgs (which : Nat) (text : List Char) : Option (Request × List Char) :=
  let getName (k : String → Request) (text : List Char) : Option (Request × List Char) :=
    some (k (String.ofList (getWord text).1), (getWord text).2)
  let getId (k : Nat → Request) : Option (Request × List Char) :=
    (getNat text).map fun (id, rest) => (k id, rest)
  let getTwo (k : Nat → Nat → Request) : Option (Request × List Char) :=
    (getNat text).bind fun (a, rest) => (getNat rest).map fun (b, rest) => (k a b, rest)
  match which with
  | 13 => getName .createLock text
  | 14 => getId .acquire
  | 15 => getId .release
  | 16 => getId .destroyLock
  | 17 => getName .createCondition text
  | 18 => getTwo .wait
  | 19 => getTwo .signal
  | 20 => getTwo .broadcast
  | 21 => getId .destroyCondition
  | 24 => (getNat text).bind fun (size, rest) => getName (.createMV · size) rest
  | 25 => getId .destroyMV
  | 26 => getTwo .get
  | 27 => (getNat text).bind fun (MVID, rest) => (getNat rest).bind fun (index, rest) =>
    (getInt rest).map fun (value, rest) => (.set MVID index value, rest)
  | _ => none

/-- The branch of `Server()` for a mail of a client. -/
def readClient (text : List Char) : Option Request :=
  (getNat text).bind fun (which, rest) => (getArgs which rest).map Prod.fst

/-- What `Server()` reads from a mail of another server. -/
inductive ServerMail where
  | request (requestID reqPktHdr reqMailHdr : Nat) (r : Request)
  | reply (requestID reqPktHdr reqMailHdr : Nat) (r : Request) (response : Bool)
  deriving DecidableEq, Repr

/-- The branch of `Server()` for a mail of another server. -/
def readServer (text : List Char) : Option ServerMail :=
  (getNat text).bind fun (which, rest) =>
  (getInt rest).bind fun (request, rest) =>
  (getNat rest).bind fun (requestID, rest) =>
  (getNat rest).bind fun (reqPktHdr, rest) =>
  (getNat rest).bind fun (reqMailHdr, rest) =>
  (getArgs which rest).bind fun (r, rest) =>
  if request ≠ 0 then some (.request requestID reqPktHdr reqMailHdr r)
  else (getBool rest).map fun (response, _) => .reply requestID reqPktHdr reqMailHdr r response

/-! ## What the syscalls let through -/

/-- The name of a create. -/
def Request.name? : Request → Option String
  | .createLock name | .createCondition name | .createMV name _ => some name
  | _ => none

/-- The numbers of a request. -/
def Request.numbers : Request → List Int
  | .createLock _ | .createCondition _ => []
  | .acquire id | .release id | .destroyLock id | .destroyCondition id | .destroyMV id => [id]
  | .wait CVID lockID | .signal CVID lockID | .broadcast CVID lockID => [CVID, lockID]
  | .createMV _ size => [size]
  | .get MVID index => [MVID, index]
  | .set MVID index value => [MVID, index, value]

def MaxNameLen : Nat := 20

/-- The arguments that a client syscall sends: numbers are `int`s, a name has at most
`MaxNameLen` bytes and no blank, a size is positive. A byte is the character with its code. -/
structure Passed (r : Request) : Prop where
  numbers : ∀ z ∈ r.numbers, FitsInt z
  name : ∀ name ∈ r.name?, name.length ≤ MaxNameLen ∧ ' ' ∉ name.toList
  size : ∀ name size, r = .createMV name size → 0 < size

/-- The request with its name cut at the first NUL. -/
def Request.cut : Request → Request
  | .createLock name => .createLock (String.ofList (cString name.toList))
  | .createCondition name => .createCondition (String.ofList (cString name.toList))
  | .createMV name size => .createMV (String.ofList (cString name.toList)) size
  | r => r

/-- The name is not empty and has no white space. -/
def Request.Named (r : Request) : Prop :=
  ∀ name ∈ r.name?, name ≠ "" ∧ ∀ ch ∈ name.toList, isSpace ch = false

/-! ## Texts without NUL -/

theorem not_nul_putNat (n : Nat) : Char.ofNat 0 ∉ putNat n := by
  intro h
  have hdigit := isDigit_of_mem_putNat h
  exact absurd hdigit (by decide)

theorem not_nul_putInt (z : Int) : Char.ofNat 0 ∉ putInt z := by
  unfold putInt
  split
  · rw [List.mem_cons, not_or]
    exact ⟨by decide, not_nul_putNat _⟩
  · exact not_nul_putNat _

theorem cString_of_not_mem {t : List Char} (h : Char.ofNat 0 ∉ t) : cString t = t := by
  unfold cString
  rw [List.takeWhile_eq_self_iff]
  intro ch hch
  rw [decide_eq_true_eq]
  rintro rfl
  exact h hch

theorem cString_append {w : List Char} (h : Char.ofNat 0 ∉ w) (t : List Char) :
    cString (w ++ t) = w ++ cString t := by
  unfold cString
  rw [List.takeWhile_append_of_pos]
  intro ch hch
  rw [decide_eq_true_eq]
  rintro rfl
  exact h hch

theorem cString_blank (t : List Char) : cString (' ' :: t) = ' ' :: cString t := rfl

theorem not_nul_cString (t : List Char) : Char.ofNat 0 ∉ cString t := by
  intro h
  have hne := List.mem_takeWhile_imp h
  simp at hne

theorem mem_join {ch : Char} {ws : List (List Char)} (h : ch ∈ join ws) :
    ch = ' ' ∨ ∃ w ∈ ws, ch ∈ w := by
  induction ws with
  | nil => cases h
  | cons w ws ih =>
    cases ws with
    | nil => exact .inr ⟨w, List.mem_cons_self, h⟩
    | cons w' ws =>
      rw [join, List.mem_append, List.mem_cons] at h
      · rcases h with h | h | h
        · exact .inr ⟨w, List.mem_cons_self, h⟩
        · exact .inl h
        · rcases ih h with h | ⟨v, hv, h⟩
          · exact .inl h
          · exact .inr ⟨v, List.mem_cons_of_mem w hv, h⟩
      · exact List.cons_ne_nil _ _

/-- A text of fields without NUL is handed on whole. -/
theorem cString_join {ws : List (List Char)} (h : ∀ w ∈ ws, Char.ofNat 0 ∉ w) :
    cString (join ws) = join ws := by
  refine cString_of_not_mem fun hmem => ?_
  rcases mem_join hmem with heq | ⟨w, hw, hmem⟩
  · exact absurd heq (by decide)
  · exact h w hw hmem

theorem join_cons {w : List Char} {ws : List (List Char)} (h : ws ≠ []) :
    join (w :: ws) = w ++ ' ' :: join ws := by
  rw [join]
  exact h

/-- The last field comes after a blank. -/
theorem join_concat {ws : List (List Char)} (h : ws ≠ []) (w : List Char) :
    join (ws ++ [w]) = join ws ++ ' ' :: w := by
  induction ws with
  | nil => exact absurd rfl h
  | cons v ws ih =>
    cases ws with
    | nil => rfl
    | cons v' ws =>
      show v ++ ' ' :: join (v' :: ws ++ [w]) = (v ++ ' ' :: join (v' :: ws)) ++ ' ' :: w
      rw [ih (List.cons_ne_nil _ _), List.append_assoc]
      rfl

theorem putArgs_ne_nil (r : Request) : putArgs r ≠ [] := by
  cases r <;> simp [putArgs]

/-- The names that a C string can hold. -/
def Request.NoNul (r : Request) : Prop := ∀ name ∈ r.name?, Char.ofNat 0 ∉ name.toList

theorem noNul_cut (r : Request) : r.cut.NoNul := by
  intro name hname
  cases r <;> simp only [Request.cut, Request.name?, Option.mem_def, Option.some.injEq,
    reduceCtorEq] at hname <;> rw [← hname, String.toList_ofList] <;> exact not_nul_cString _

theorem not_nul_putArgs {r : Request} (h : r.NoNul) : ∀ w ∈ putArgs r, Char.ofNat 0 ∉ w := by
  intro w hw
  cases r <;> simp only [putArgs, List.mem_cons, List.not_mem_nil, or_false] at hw
  case createLock name => rw [hw]; exact h name rfl
  case createCondition name => rw [hw]; exact h name rfl
  case createMV name size =>
    rcases hw with rfl | rfl
    · exact not_nul_putNat _
    · exact h name rfl
  case set MVID index value =>
    rcases hw with rfl | rfl | rfl
    · exact not_nul_putNat _
    · exact not_nul_putNat _
    · exact not_nul_putInt _
  case wait | signal | broadcast | get =>
    rcases hw with rfl | rfl <;> exact not_nul_putNat _
  all_goals rw [hw]; exact not_nul_putNat _

theorem not_nul_putHeader (request : Bool) (requestID : Nat) (c : Sender) (r : Request) :
    ∀ w ∈ putHeader request requestID c r, Char.ofNat 0 ∉ w := by
  intro w hw
  simp only [putHeader, List.mem_cons, List.not_mem_nil, or_false] at hw
  rcases hw with rfl | rfl | rfl | rfl | rfl <;> exact not_nul_putNat _

theorem requestText_eq {r : Request} (h : r.NoNul) (requestID : Nat) (c : Sender) :
    requestText requestID c r = join (putHeader true requestID c r ++ putArgs r) := by
  refine cString_join fun w hw => ?_
  rcases List.mem_append.mp hw with hw | hw
  · exact not_nul_putHeader _ _ _ _ w hw
  · exact not_nul_putArgs h w hw

theorem replyText_eq {r : Request} (h : r.NoNul) (requestID : Nat) (c : Sender)
    (response : Bool) : replyText requestID c r response =
      join (putHeader false requestID c r ++ (putArgs r ++ [putNat response.toNat])) := by
  refine cString_join fun w hw => ?_
  rcases List.mem_append.mp hw with hw | hw
  · exact not_nul_putHeader _ _ _ _ w hw
  · rcases List.mem_append.mp hw with hw | hw
    · exact not_nul_putArgs h w hw
    · rw [List.mem_singleton.mp hw]
      exact not_nul_putNat _

/-- The client's text carries the name up to its first NUL. -/
theorem clientText_eq (r : Request) : clientText r = join (putNat r.type :: putArgs r.cut) := by
  have hname : ∀ (n : Nat) (name : String), cString (join [putNat n, name.toList]) =
      join [putNat n, (String.ofList (cString name.toList)).toList] := by
    intro n name
    rw [String.toList_ofList]
    change cString (putNat n ++ ' ' :: name.toList) = putNat n ++ ' ' :: cString name.toList
    rw [cString_append (not_nul_putNat n), cString_blank]
  cases r with
  | createLock name => exact hname 13 name
  | createCondition name => exact hname 17 name
  | createMV name size =>
    change cString (join [putNat 24, putNat size, name.toList]) = _
    rw [join_cons (by simp), cString_append (not_nul_putNat 24), cString_blank, hname size name]
    rfl
  | _ =>
    refine cString_join fun w hw => ?_
    rcases List.mem_cons.mp hw with rfl | hw
    · exact not_nul_putNat _
    · exact not_nul_putArgs (fun name hname => by cases hname) w hw

/-! ## Reading back what was written -/

theorem putInt_natCast (n : Nat) : putInt n = putNat n := by
  unfold putInt
  rw [if_neg (by omega), Int.natAbs_natCast]

/-- A number that fits into an `int`. -/
theorem getNat_putNat {n : Nat} (hn : FitsInt n) {rest : List Char} (hrest : AtBlank rest) :
    getNat (putNat n ++ rest) = some (n, rest) := by
  rw [getNat, ← putInt_natCast, getInt_putInt hn hrest, Option.bind_some]
  simp

theorem getNat_blank (t : List Char) : getNat (' ' :: t) = getNat t := rfl

theorem fitsInt_toNat (b : Bool) : FitsInt b.toNat := by
  cases b <;> decide

theorem getBool_putNat (b : Bool) {rest : List Char} (hrest : AtBlank rest) :
    getBool (putNat b.toNat ++ rest) = some (b, rest) := by
  rw [getBool, ← putInt_natCast, getInt_putInt (fitsInt_toNat b) hrest, Option.bind_some]
  cases b <;> rfl

theorem getBool_blank (t : List Char) : getBool (' ' :: t) = getBool t := rfl

/-- **The arguments are read back** when the name, if there is one, is a word. -/
theorem getArgs_putArgs {r : Request} (hnum : ∀ z ∈ r.numbers, FitsInt z) (hname : r.Named)
    {rest : List Char} (hrest : AtBlank rest) :
    getArgs r.type (' ' :: (join (putArgs r) ++ rest)) = some (r, rest) := by
  have hword : ∀ name : String, name ∈ r.name? →
      getWord (name.toList ++ rest) = (name.toList, rest) := by
    intro name hmem
    obtain ⟨hne, hspace⟩ := hname name hmem
    exact getWord_append hspace (fun hnil => hne (String.toList_eq_nil_iff.mp hnil)) hrest
  have hone : ∀ n : Nat, (n : Int) ∈ r.numbers → getNat (' ' :: (putNat n ++ rest)) =
      some (n, rest) := fun n hn => getNat_putNat (hnum n hn) hrest
  have htwo : ∀ (n : Nat) (t : List Char), (n : Int) ∈ r.numbers →
      getNat (' ' :: (putNat n ++ ' ' :: t ++ rest)) = some (n, ' ' :: (t ++ rest)) := by
    intro n t hn
    rw [List.append_assoc]
    exact getNat_putNat (hnum n hn) (atBlank_cons _)
  cases r with
  | createLock name =>
    change some (Request.createLock (String.ofList (getWord (name.toList ++ rest)).1),
      (getWord (name.toList ++ rest)).2) = _
    rw [hword name rfl, String.ofList_toList]
  | createCondition name =>
    change some (Request.createCondition (String.ofList (getWord (name.toList ++ rest)).1),
      (getWord (name.toList ++ rest)).2) = _
    rw [hword name rfl, String.ofList_toList]
  | acquire id | release id | destroyLock id | destroyCondition id | destroyMV id =>
    simp only [getArgs, Request.type, putArgs, join]
    rw [hone id List.mem_cons_self]
    rfl
  | wait a b | signal a b | broadcast a b | get a b =>
    simp only [getArgs, Request.type, putArgs, join]
    rw [htwo a (putNat b) List.mem_cons_self, Option.bind_some,
      hone b (List.mem_cons_of_mem _ List.mem_cons_self)]
    rfl
  | createMV name size =>
    simp only [getArgs, Request.type, putArgs, join]
    rw [htwo size name.toList List.mem_cons_self, Option.bind_some, getWord_blank, hword name rfl,
      String.ofList_toList]
  | set MVID index value =>
    simp only [getArgs, Request.type, putArgs, join]
    rw [htwo MVID _ List.mem_cons_self, Option.bind_some,
      htwo index _ (List.mem_cons_of_mem _ List.mem_cons_self), Option.bind_some, getInt_blank,
      getInt_putInt (hnum value (by simp [Request.numbers])) hrest]
    rfl

theorem fitsInt_type (r : Request) : FitsInt r.type := by
  have hle : r.type ≤ 27 := by cases r <;> simp [Request.type]
  unfold FitsInt
  omega

/-- The fields before the arguments are read back. -/
theorem readServer_join {requestID : Nat} {c : Sender} (hid : FitsInt requestID)
    (hmachine : FitsInt c.machine) (hmailbox : FitsInt c.mailbox) (request : Bool) (r : Request)
    {ws : List (List Char)} (hws : ws ≠ []) :
    readServer (join (putHeader request requestID c r ++ ws)) =
      (getArgs r.type (' ' :: join ws)).bind fun (r', rest) =>
        if request then some (.request requestID c.machine c.mailbox r')
        else (getBool rest).map fun (response, _) =>
          .reply requestID c.machine c.mailbox r' response := by
  have hjoin : join (putHeader request requestID c r ++ ws) = putNat r.type ++
      ' ' :: (putNat request.toNat ++ ' ' :: (putNat requestID ++ ' ' :: (putNat c.machine ++
        ' ' :: (putNat c.mailbox ++ ' ' :: join ws)))) := by
    simp only [putHeader, List.cons_append, List.nil_append]
    rw [join_cons (by simp), join_cons (by simp), join_cons (by simp), join_cons (by simp),
      join_cons hws]
  rw [hjoin, readServer, getNat_putNat (fitsInt_type r) (atBlank_cons _), Option.bind_some]
  simp only
  rw [getInt_blank, ← putInt_natCast request.toNat,
    getInt_putInt (fitsInt_toNat request) (atBlank_cons _), Option.bind_some]
  simp only
  rw [getNat_blank, getNat_putNat hid (atBlank_cons _), Option.bind_some]
  simp only
  rw [getNat_blank, getNat_putNat hmachine (atBlank_cons _), Option.bind_some]
  simp only
  rw [getNat_blank, getNat_putNat hmailbox (atBlank_cons _), Option.bind_some]
  cases request <;> rfl

theorem cut_numbers (r : Request) : r.cut.numbers = r.numbers := by
  cases r <;> rfl

/-- **The server that a client contacts** reads the request as `Request.read` has it. -/
theorem readClient_clientText {r : Request} (hnum : ∀ z ∈ r.numbers, FitsInt z) :
    readClient (clientText r) = some r.read := by
  have hstart : readClient (clientText r) =
      (getArgs r.type (' ' :: join (putArgs r.cut))).map Prod.fst := by
    rw [clientText_eq, join_cons (putArgs_ne_nil _), readClient,
      getNat_putNat (fitsInt_type r) (atBlank_cons _), Option.bind_some]
  have hid : ∀ id, r.id = some id → (getArgs r.type (' ' :: join (putArgs r.cut))).map Prod.fst =
      some r.read := by
    intro id hid
    have hcut : r.cut = r := by cases r <;> first | rfl | cases hid
    have hname : r.name? = none := by cases r <;> first | rfl | cases hid
    have hargs := getArgs_putArgs hnum (fun name hmem => by rw [hname] at hmem; cases hmem)
      atBlank_nil
    rw [List.append_nil] at hargs
    rw [hcut, hargs, read_eq hid]
    rfl
  rw [hstart]
  cases r with
  | createLock name | createCondition name =>
    simp only [getArgs, Request.type, Request.cut, putArgs, join, Option.map_some, Request.read,
      readName, String.toList_ofList, getWord_blank]
    rfl
  | createMV name size =>
    have hsize := getNat_putNat (hnum size List.mem_cons_self)
      (atBlank_cons (String.ofList (cString name.toList)).toList)
    simp only [getArgs, Request.type, Request.cut, putArgs, join]
    rw [getNat_blank, hsize, Option.bind_some]
    simp only [Option.map_some, Request.read, readName, String.toList_ofList, getWord_blank]
    rfl
  | _ => exact hid _ rfl

/-! ## The round trip -/

/-- The pending request that `Server()` finds for a reply. -/
def ServerMail.found (s : Server) : ServerMail → Option Nat
  | .request _ _ _ _ => none
  | .reply requestID reqPktHdr reqMailHdr r _ =>
    findPending s ⟨reqPktHdr, reqMailHdr, 0⟩ requestID r

/-- A request of the client `c` survives both hops: the contacted server reads what the
client passed, another server reads what is pending, and the server that asked reads its
reply and finds the entry it was about. -/
structure RoundTrip (r : Request) (c : Sender) (requestID : Nat) : Prop where
  client : readClient (clientText r) = some r.cut
  request : readServer (requestText requestID c r.cut) =
    some (.request requestID c.machine c.mailbox r.cut)
  reply : ∀ response, readServer (replyText requestID c r.cut response) =
    some (.reply requestID c.machine c.mailbox r.cut response)
  found : ∀ up n, Lib.Reachable NetStep (.init up) n → ∀ (j index : Nat) (p : PendingRequest),
    (n.server j).pendingRequests[index]? = some p → p.c.same c = true →
    p.requestID = requestID → p.r = r.cut → ∀ response mail,
      readServer (replyText requestID c r.cut response) = some mail →
      mail.found (n.server j) = some index

theorem Sender.same_of_fields {a b : Sender} (h : a.same b = true) (tag : Nat) :
    a.same ⟨b.machine, b.mailbox, tag⟩ = true := h

/-- Numbers are used once, so the search stops at the entry itself. -/
theorem findPending_eq_some {s : Server} {c : Sender} {index : Nat} {p : PendingRequest}
    (hnodup : (s.pendingRequests.map PendingRequest.requestID).Nodup)
    (hp : s.pendingRequests[index]? = some p) (hc : p.c.same c = true) :
    findPending s c p.requestID p.r = some index := by
  cases hfind : findPending s c p.requestID p.r with
  | none =>
    rw [findPending_eq, findPendingWhere, List.findIdx?_eq_none_iff] at hfind
    have hnot := hfind p (List.mem_of_getElem? hp)
    simp [hc, sameKey_refl] at hnot
  | some k =>
    obtain ⟨q, hq, hid, -⟩ := findPending_some hfind
    have hk : (s.pendingRequests.map PendingRequest.requestID)[k]? =
        (s.pendingRequests.map PendingRequest.requestID)[index]? := by
      rw [List.getElem?_map, List.getElem?_map, hq, hp, Option.map_some, Option.map_some, hid]
    have hlt : k < (s.pendingRequests.map PendingRequest.requestID).length := by
      rw [List.length_map]
      exact (List.getElem?_eq_some_iff.mp hq).1
    rw [(List.getElem?_inj hlt hnodup).mp hk]

section RoundTrip

variable {r : Request} {c : Sender} {requestID : Nat} (hpassed : Passed r)
  (hid : FitsInt requestID) (hmachine : FitsInt c.machine) (hmailbox : FitsInt c.mailbox)

/-- The word that is read has no white space in it. -/
theorem not_space_readName (text : String) : ∀ ch ∈ (readName text).toList, isSpace ch = false := by
  intro ch hch
  rw [readName, String.toList_ofList, getWord] at hch
  have hnot := List.mem_takeWhile_imp hch
  simpa using hnot

theorem named_of_read (h : r.read = r.cut) : ∀ name ∈ r.cut.name?,
    ∀ ch ∈ name.toList, isSpace ch = false := by
  intro name hname
  rw [← h] at hname
  cases r <;> simp only [Request.read, Request.name?, Option.mem_def, Option.some.injEq,
    reduceCtorEq] at hname <;> rw [← hname] <;> exact not_space_readName _

theorem read_of_named (h : r.cut.Named) : r.read = r.cut := by
  have hword : ∀ name : String, String.ofList (cString name.toList) ∈ r.cut.name? →
      readName name = String.ofList (cString name.toList) := by
    intro name hname
    obtain ⟨hne, hspace⟩ := h _ hname
    rw [String.toList_ofList] at hspace
    have hget := getWord_append hspace (fun hnil => hne (by rw [hnil])) atBlank_nil
    rw [List.append_nil] at hget
    change String.ofList (getWord (cString name.toList)).1 = _
    rw [hget]
  cases r with
  | createLock name | createCondition name =>
    simp only [Request.read, Request.cut]
    rw [hword name rfl]
  | createMV name size =>
    simp only [Request.read, Request.cut]
    rw [hword name rfl]
  | _ => rfl

include hpassed hid hmachine hmailbox

/-- A reply about a create with an empty name cannot be read: the response is taken for
the name. -/
theorem readServer_empty (hempty : "" ∈ r.cut.name?) :
    readServer (replyText requestID c r.cut true) = none := by
  have hne : putArgs r.cut ++ [putNat true.toNat] ≠ [] := by simp
  rw [replyText_eq (noNul_cut r), readServer_join hid hmachine hmailbox false r.cut hne]
  cases r with
  | createLock name =>
    have hname := Option.some.inj hempty
    simp only [Request.cut] at hname ⊢
    rw [hname]
    rfl
  | createCondition name =>
    have hname := Option.some.inj hempty
    simp only [Request.cut] at hname ⊢
    rw [hname]
    rfl
  | createMV name size =>
    have hname := Option.some.inj hempty
    have hsize := getNat_putNat (hpassed.numbers size List.mem_cons_self)
      (atBlank_cons [' ', '1'])
    simp only [Request.cut] at hname ⊢
    rw [hname]
    change Option.bind ((getNat (' ' :: (putNat size ++ [' ', ' ', '1']))).bind _) _ = none
    rw [getNat_blank, hsize]
    rfl
  | _ => cases hempty

/-- **The codec round trip**: a request that the client syscalls let through survives both
hops if and only if its name, if it has one, is not empty and has no white space in it. -/
theorem codec_round_trip_iff : RoundTrip r c requestID ↔ r.cut.Named := by
  have hnum : ∀ z ∈ r.cut.numbers, FitsInt z := by
    rw [cut_numbers]
    exact hpassed.numbers
  constructor
  · intro h
    have hread : r.read = r.cut := by
      have hclient := h.client
      rw [readClient_clientText hpassed.numbers] at hclient
      exact Option.some.inj hclient
    intro name hname
    refine ⟨?_, named_of_read hread name hname⟩
    rintro rfl
    have hreply := h.reply true
    rw [readServer_empty hpassed hid hmachine hmailbox hname] at hreply
    cases hreply
  · intro h
    have hargs : ∀ rest, AtBlank rest → getArgs r.cut.type
        (' ' :: (join (putArgs r.cut) ++ rest)) = some (r.cut, rest) :=
      fun rest hrest => getArgs_putArgs hnum h hrest
    have hreply : ∀ response, readServer (replyText requestID c r.cut response) =
        some (.reply requestID c.machine c.mailbox r.cut response) := by
      intro response
      have hbool := getBool_putNat response atBlank_nil
      rw [List.append_nil] at hbool
      rw [replyText_eq (noNul_cut r), readServer_join hid hmachine hmailbox false r.cut (by simp),
        join_concat (putArgs_ne_nil _), hargs _ (atBlank_cons _), Option.bind_some]
      simp only [Bool.false_eq_true, if_false, getBool_blank, hbool, Option.map_some]
    refine ⟨?_, ?_, hreply, ?_⟩
    · rw [readClient_clientText hpassed.numbers, read_of_named h]
    · have hreq := hargs [] atBlank_nil
      rw [List.append_nil] at hreq
      rw [requestText_eq (noNul_cut r),
        readServer_join hid hmachine hmailbox true r.cut (putArgs_ne_nil _), hreq]
      rfl
    · intro up n hn j index p hp hc hpid hpr response mail hmail
      rw [hreply] at hmail
      cases hmail
      have hnumbered : Numbered n :=
        hn.invariant (numbered_init up) fun _ _ _ h hstep => numbered_step h hstep
      have hfind := findPending_eq_some (hnumbered.distinct j) hp (Sender.same_of_fields hc 0)
      rw [hpid, hpr] at hfind
      exact hfind

end RoundTrip

theorem passed_createMV_m : Passed (.createMV "m" 2) where
  numbers := by decide
  name := by
    rintro name ⟨⟩
    decide +kernel
  size := by
    rintro name size ⟨⟩
    decide +kernel

theorem codec_round_trip_createMV : RoundTrip (.createMV "m" 2) ⟨5, 1, 0⟩ 7 := by
  refine (codec_round_trip_iff passed_createMV_m (by decide) (by decide) (by decide)).mpr ?_
  rintro name ⟨⟩
  have hall : (String.ofList (cString "m".toList)).toList.all (fun ch => !isSpace ch) = true := by
    decide +kernel
  refine ⟨by decide +kernel, fun ch hch => ?_⟩
  simpa using List.all_eq_true.mp hall ch hch

theorem passed_createLock_empty : Passed (.createLock "") where
  numbers := by decide
  name := by
    rintro name ⟨⟩
    decide +kernel
  size := by
    rintro name size ⟨⟩

/-- With an empty name the reply reads `13 0 0 5 1  1`: the response is taken for the name. -/
theorem empty_name_loses_response : Passed (.createLock "") ∧
    readServer (replyText 0 ⟨5, 1, 0⟩ (.createLock "") true) = none ∧
    ¬ RoundTrip (.createLock "") ⟨5, 1, 0⟩ 0 := by
  have hnone : readServer (replyText 0 ⟨5, 1, 0⟩ (.createLock "") true) = none := by
    decide +kernel
  refine ⟨passed_createLock_empty, hnone, fun h => ?_⟩
  have hreply := h.reply true
  have hcut : Request.cut (.createLock "") = .createLock "" := rfl
  rw [hcut, hnone] at hreply
  cases hreply

end Nachos.Net

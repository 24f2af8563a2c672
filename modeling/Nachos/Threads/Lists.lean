import Mathlib.Data.List.Sort
import Nachos.Lib.Chain
import Nachos.Lib.Path

/-!
# Lists of the kernel

`threads/list.cc`: a list is cells in memory, each with the address of the next one, and the
addresses of the first and of the last cell. `new` may put a cell at any address that is not in use.
An operation has no result where the source would use a null pointer or a cell that was deleted.

Every run of the operations is one of a list in the mathematical sense, and its cells are all that
is in memory (`lists_refine`).
-/

namespace Nachos.Lists

open Lib

/-! ### `class List` -/

/-- `class ListElement`, without `next`. -/
structure Entry (α : Type*) where
  item : α
  key : Int
  deriving DecidableEq

/-- `class List`, with the memory that its elements are in. -/
structure LinkedList (α : Type*) where
  heap : Heap (Entry α)
  first : Option Nat
  last : Option Nat

namespace LinkedList

variable {α : Type*}

def new : LinkedList α := ⟨fun _ => none, none, none⟩

def IsEmpty (l : LinkedList α) : Bool := l.first.isNone

/-- `new ListElement(item, key)`, at the address `a`. -/
def alloc (l : LinkedList α) (a : Nat) (e : Entry α) : LinkedList α :=
  { l with heap := Function.update l.heap a (some ⟨e, none⟩) }

/-- `ptr->next = q`. -/
def setNext (l : LinkedList α) (ptr q : Option Nat) : Option (LinkedList α) :=
  ptr.bind fun a => (l.heap a).map fun c =>
    { l with heap := Function.update l.heap a (some ⟨c.val, q⟩) }

def setFirst (l : LinkedList α) (p : Option Nat) : LinkedList α := { l with first := p }

def setLast (l : LinkedList α) (p : Option Nat) : LinkedList α := { l with last := p }

/-- The end of `Append`, and of `SortedInsert` where the item goes to the end. -/
def putLast (l : LinkedList α) (a : Nat) : Option (LinkedList α) :=
  (l.setNext l.last (some a)).map (·.setLast (some a))

/-- The end of `Prepend`, and of `SortedInsert` where the item goes to the front. -/
def putFirst (l : LinkedList α) (a : Nat) : Option (LinkedList α) :=
  (l.setNext (some a) l.first).map (·.setFirst (some a))

def Append (l : LinkedList α) (a : Nat) (item : α) : Option (LinkedList α) :=
  let l := l.alloc a ⟨item, 0⟩
  if l.IsEmpty then some ((l.setFirst (some a)).setLast (some a)) else l.putLast a

def Prepend (l : LinkedList α) (a : Nat) (item : α) : Option (LinkedList α) :=
  let l := l.alloc a ⟨item, 0⟩
  if l.IsEmpty then some ((l.setFirst (some a)).setLast (some a)) else l.putFirst a

/-- The loop of `SortedInsert`, from `ptr` on, for `n` turns at most. -/
def insertLoop (l : LinkedList α) (a : Nat) (sortKey : Int) :
    Nat → Option Nat → Option (LinkedList α)
  | 0, _ => none
  | n + 1, ptr =>
    ptr.bind fun p => (l.heap p).bind fun c =>
      match c.next with
      -- The loop has ended: `last` is used, not `ptr`.
      | none => l.putLast a
      | some q => (l.heap q).bind fun d =>
        if sortKey < d.val.key then
          (l.setNext (some a) (some q)).bind (·.setNext (some p) (some a))
        else insertLoop l a sortKey n (some q)

def SortedInsert (n : Nat) (l : LinkedList α) (a : Nat) (item : α) (sortKey : Int) :
    Option (LinkedList α) :=
  let l := l.alloc a ⟨item, sortKey⟩
  if l.IsEmpty then some ((l.setFirst (some a)).setLast (some a))
  else
    l.first.bind fun f => (l.heap f).bind fun c =>
      if sortKey < c.val.key then l.putFirst a else l.insertLoop a sortKey n l.first

/-- `SortedRemove`, with the key for `*keyPtr`; `delete` takes the element out of memory. -/
def SortedRemove (l : LinkedList α) : Option (LinkedList α × Option (Entry α)) :=
  if l.IsEmpty then some (l, none)
  else
    l.first.bind fun f => (l.heap f).map fun c =>
      -- With one element `last` would be left pointing at it.
      let l := if l.first = l.last then (l.setFirst none).setLast none else l.setFirst c.next
      ({ l with heap := Function.update l.heap f none }, some c.val)

def Remove (l : LinkedList α) : Option (LinkedList α × Option α) :=
  l.SortedRemove.map fun res => (res.1, res.2.map (·.item))

/-- `Mapcar`, from `ptr` on, for `n` elements at most: the items that `func` is called with. -/
def mapcarFrom (l : LinkedList α) : Nat → Option Nat → Option (List α)
  | _, none => some []
  | 0, some _ => none
  | n + 1, some p => (l.heap p).bind fun c => (mapcarFrom l n c.next).map (c.val.item :: ·)

def Mapcar (n : Nat) (l : LinkedList α) : Option (List α) := l.mapcarFrom n l.first

end LinkedList

/-- A call of an operation that changes the list. -/
inductive Request (α : Type*) where
  | Append (item : α)
  | Prepend (item : α)
  | SortedInsert (item : α) (sortKey : Int)
  | SortedRemove
  | Remove

/-- What a call returns: the item, and `*keyPtr`. -/
abbrev Answer (α : Type*) := Option (α × Option Int)

variable {α : Type*}

/-- A call, with `a` for the address of a new element. -/
def LinkedList.serve (n : Nat) (l : LinkedList α) (a : Nat) :
    Request α → Option (LinkedList α × Answer α)
  | .Append item => (l.Append a item).map (·, none)
  | .Prepend item => (l.Prepend a item).map (·, none)
  | .SortedInsert item sortKey => (l.SortedInsert n a item sortKey).map (·, none)
  | .SortedRemove => l.SortedRemove.map fun res => (res.1, res.2.map fun e => (e.item, some e.key))
  | .Remove => l.Remove.map fun res => (res.1, res.2.map (·, none))

/-- A call from outside, and what it returned. -/
def ListStep (l : LinkedList α) (s : Request α × Answer α) (l' : LinkedList α) : Prop :=
  ∃ n a, l.heap a = none ∧ l.serve n a s.1 = some (l', s.2)

/-! ### A list in the mathematical sense -/

/-- The element is put before others with a larger key. -/
def Entry.Before (e e' : Entry α) : Prop := e.key < e'.key

instance : DecidableRel (Entry.Before (α := α)) :=
  fun e e' => inferInstanceAs (Decidable (e.key < e'.key))

/-- What a call does to the elements, and what it returns. -/
def answer (xs : List (Entry α)) : Request α → List (Entry α) × Answer α
  | .Append item => (xs ++ [⟨item, 0⟩], none)
  | .Prepend item => (⟨item, 0⟩ :: xs, none)
  | .SortedInsert item sortKey => (xs.orderedInsert Entry.Before ⟨item, sortKey⟩, none)
  | .SortedRemove => (xs.tail, xs.head?.map fun e => (e.item, some e.key))
  | .Remove => (xs.tail, xs.head?.map fun e => (e.item, none))

def AnswerStep (xs : List (Entry α)) (s : Request α × Answer α) (ys : List (Entry α)) : Prop :=
  answer xs s.1 = (ys, s.2)

/-- Calls that keep a list in the order of the keys. -/
def Request.Sorted : Request α → Prop
  | .Append _ => False
  | .Prepend _ => False
  | .SortedInsert _ _ => True
  | .SortedRemove => True
  | .Remove => True

def InOrder (xs : List (Entry α)) : Prop := xs.Pairwise (·.key ≤ ·.key)

theorem InOrder.insert {xs : List (Entry α)} (h : InOrder xs) (e : Entry α) :
    InOrder (xs.orderedInsert Entry.Before e) := by
  induction xs with
  | nil => exact List.pairwise_singleton ..
  | cons x xs ih =>
    obtain ⟨hx, hxs⟩ := List.pairwise_cons.mp h
    rw [List.orderedInsert_cons]
    by_cases hlt : e.Before x
    · rw [if_pos hlt]
      refine List.pairwise_cons.mpr ⟨fun y hy => ?_, h⟩
      have hex : e.key < x.key := hlt
      rcases List.mem_cons.mp hy with rfl | hy
      · omega
      · have := hx y hy
        omega
    · -- equal keys keep their order, so the first may be one with the same key
      rw [if_neg hlt]
      refine List.pairwise_cons.mpr ⟨fun y hy => ?_, ih hxs⟩
      rcases (List.mem_orderedInsert _).mp hy with rfl | hy
      · exact Int.not_lt.mp hlt
      · exact hx y hy

theorem AnswerStep.inOrder {xs ys : List (Entry α)} {s : Request α × Answer α}
    (hs : AnswerStep xs s ys) (hsorted : s.1.Sorted) (h : InOrder xs) : InOrder ys := by
  have hys : ys = (answer xs s.1).1 := (congrArg Prod.fst hs).symm
  rw [hys]
  match s, hsorted with
  | (.SortedInsert item sortKey, _), _ => exact h.insert _
  | (.SortedRemove, _), _ => exact List.Pairwise.tail h
  | (.Remove, _), _ => exact List.Pairwise.tail h

/-! ### What a list holds -/

/-- The cells of the list, in order: nothing else is in memory. -/
structure Holds (l : LinkedList α) (cells : List (Nat × Entry α)) : Prop where
  chain : Seg l.heap l.first cells none
  nodup : (cells.map Prod.fst).Nodup
  last : l.last = (cells.map Prod.fst).getLast?
  rest : ∀ a, a ∉ cells.map Prod.fst → l.heap a = none

variable {l : LinkedList α} {cells xs ys : List (Nat × Entry α)} {a p n : Nat} {e v : Entry α}

namespace LinkedList

theorem setNext_eq {c : Cell (Entry α)} (h : l.heap p = some c) (q : Option Nat) :
    l.setNext (some p) q = some { l with heap := Function.update l.heap p (some ⟨c.val, q⟩) } := by
  rw [setNext, Option.bind_some, h, Option.map_some]

theorem alloc_self : (l.alloc a e).heap a = some ⟨e, none⟩ := Function.update_self ..

theorem ne_of_free {c : Cell (Entry α)} (hc : l.heap p = some c) (ha : l.heap a = none) :
    p ≠ a := by
  rintro rfl
  rw [ha] at hc
  cases hc

theorem alloc_of_ne (h : p ≠ a) : (l.alloc a e).heap p = l.heap p := Function.update_of_ne h ..

end LinkedList

namespace Holds

open LinkedList

theorem new : Holds (LinkedList.new : LinkedList α) [] := ⟨rfl, List.nodup_nil, rfl, fun _ _ => rfl⟩

theorem isEmpty (h : Holds l cells) : l.IsEmpty = cells.isEmpty := by
  have hchain := h.chain
  cases cells with
  | nil =>
    replace hchain : l.first = none := hchain
    rw [LinkedList.IsEmpty, hchain]
    rfl
  | cons x cells =>
    rw [LinkedList.IsEmpty, hchain.1]
    rfl

theorem notMem (h : Holds l cells) (ha : l.heap a = none) : a ∉ cells.map Prod.fst := by
  intro hmem
  obtain ⟨x, hx, rfl⟩ := List.mem_map.mp hmem
  obtain ⟨n, hn⟩ := h.chain.mem hx
  rw [ha] at hn
  cases hn

/-- A new cell among the others. -/
theorem insert (h : Holds l (xs ++ ys)) (ha : l.heap a = none) {l' : LinkedList α}
    (hchain : Seg l'.heap l'.first (xs ++ (a, e) :: ys) none)
    (hlast : l'.last = ((xs ++ (a, e) :: ys).map Prod.fst).getLast?)
    (hrest : ∀ b, b ≠ a → b ∉ (xs ++ ys).map Prod.fst → l'.heap b = l.heap b) :
    Holds l' (xs ++ (a, e) :: ys) := by
  have hnot := h.notMem ha
  have hperm : ((xs ++ (a, e) :: ys).map Prod.fst).Perm (a :: (xs ++ ys).map Prod.fst) :=
    List.perm_middle.map Prod.fst
  refine ⟨hchain, hperm.nodup_iff.mpr (List.nodup_cons.mpr ⟨hnot, h.nodup⟩), hlast, fun b hb => ?_⟩
  rw [hperm.mem_iff, List.mem_cons, not_or] at hb
  rw [hrest b hb.1 hb.2]
  exact h.rest b hb.2

/-- The new cell is the only one. -/
theorem putOnly (h : Holds l []) (ha : l.heap a = none) :
    Holds (((l.alloc a e).setFirst (some a)).setLast (some a)) [(a, e)] := by
  replace h : Holds l ([] ++ []) := h
  show Holds _ ([] ++ (a, e) :: [])
  refine h.insert ha (Seg.singleton.mpr ⟨rfl, ?_⟩) rfl fun b hb _ => ?_
  · exact alloc_self
  · exact alloc_of_ne hb

theorem putFirst (h : Holds l ((p, v) :: ys)) (ha : l.heap a = none) :
    ∃ l', (l.alloc a e).putFirst a = some l' ∧ Holds l' ((a, e) :: (p, v) :: ys) := by
  have hnot := h.notMem ha
  refine ⟨_, by rw [LinkedList.putFirst, setNext_eq alloc_self, Option.map_some], ?_⟩
  have hlist : Holds l ([] ++ (p, v) :: ys) := h
  show Holds _ ([] ++ (a, e) :: (p, v) :: ys)
  refine hlist.insert ha ⟨rfl, l.first, ?_, ?_⟩ ?_ fun b hb _ => ?_
  · exact Function.update_self ..
  · exact (Seg.update hnot _).mpr ((Seg.update hnot _).mpr h.chain)
  · exact h.last
  · show Function.update (Function.update l.heap a _) a _ b = l.heap b
    rw [Function.update_of_ne hb, Function.update_of_ne hb]

/-- The cell of a list at some place, and where it leads. -/
theorem cell (h : Holds l (xs ++ (p, v) :: ys)) :
    ∃ q, l.heap p = some ⟨v, q⟩ ∧ Seg l.heap q ys none := by
  obtain ⟨m, -, -, q, hq, hys⟩ := Seg.append.mp h.chain
  exact ⟨q, hq, hys⟩

/-- A new cell is put after one of the list. -/
theorem putAfter (h : Holds l (xs ++ (p, v) :: ys)) (ha : l.heap a = none) {q : Option Nat}
    (hq : l.heap p = some ⟨v, q⟩) {l' : LinkedList α}
    (hheap : l'.heap =
      Function.update (Function.update l.heap a (some ⟨e, q⟩)) p (some ⟨v, some a⟩))
    (hfirst : l'.first = l.first)
    (hlast : l'.last = ((xs ++ (p, v) :: (a, e) :: ys).map Prod.fst).getLast?) :
    Holds l' (xs ++ (p, v) :: (a, e) :: ys) := by
  have hnot := h.notMem ha
  obtain ⟨m, hxs, hp, q', hq', hys⟩ := Seg.append.mp h.chain
  obtain rfl : q' = q := by
    have hsame := hq'.symm.trans hq
    cases hsame
    rfl
  have hnodup := h.nodup
  rw [List.map_append, List.map_cons, List.nodup_append, List.nodup_cons] at hnodup
  rw [List.map_append, List.map_cons, List.mem_append, List.mem_cons, not_or, not_or] at hnot
  have hpxs : p ∉ xs.map Prod.fst := fun hmem => hnodup.2.2 p hmem p (List.mem_cons_self ..) rfl
  -- the cell `p` belongs to the part before the new one, whose end moves from `q` to `a`
  have happ : xs ++ (p, v) :: (a, e) :: ys = (xs ++ [(p, v)]) ++ (a, e) :: ys := by simp
  rw [happ]
  rw [happ] at hlast
  refine insert (by simpa using h) ha ?_ hlast fun b hb hbnot => ?_
  · rw [hheap, hfirst]
    have hbefore : Seg (Function.update l.heap a (some ⟨e, q'⟩)) l.first (xs ++ [(p, v)]) q' := by
      refine Seg.append.mpr ⟨m, (Seg.update hnot.1 _).mpr hxs, Seg.singleton.mpr ⟨hp, ?_⟩⟩
      rw [Function.update_of_ne (Ne.symm hnot.2.1)]
      exact hq'
    refine Seg.append.mpr ⟨some a, hbefore.relink hpxs (some a), rfl, q', ?_, ?_⟩
    · show Function.update _ _ _ a = _
      rw [Function.update_of_ne hnot.2.1, Function.update_self]
    · exact (Seg.update hnodup.2.1.1 _).mpr ((Seg.update hnot.2.2 _).mpr hys)
  · have hbp : b ≠ p := by
      rintro rfl
      exact hbnot (by simp)
    rw [hheap, Function.update_of_ne hbp, Function.update_of_ne hb]

theorem putLast (h : Holds l (xs ++ [(p, v)])) (ha : l.heap a = none) :
    ∃ l', (l.alloc a e).putLast a = some l' ∧ Holds l' (xs ++ [(p, v), (a, e)]) := by
  obtain ⟨q, hq, rfl⟩ := h.cell
  have hlast : (l.alloc a e).last = some p := by
    rw [show (l.alloc a e).last = l.last from rfl, h.last]
    simp
  have hcell := (alloc_of_ne (e := e) (ne_of_free hq ha)).trans hq
  refine ⟨_, by rw [LinkedList.putLast, hlast, setNext_eq hcell, Option.map_some], ?_⟩
  exact putAfter h ha hq rfl rfl (by simp [setLast])

theorem putBetween {q : Nat} {w : Entry α} (h : Holds l (xs ++ (p, v) :: (q, w) :: ys))
    (ha : l.heap a = none) :
    ∃ l', ((l.alloc a e).setNext (some a) (some q)).bind (·.setNext (some p) (some a)) = some l' ∧
      Holds l' (xs ++ (p, v) :: (a, e) :: (q, w) :: ys) := by
  obtain ⟨_, hq, rfl, -⟩ := h.cell
  have hpa := ne_of_free hq ha
  have hcell : Function.update (l.alloc a e).heap a (some ⟨e, some q⟩) p = some ⟨v, some q⟩ := by
    rw [Function.update_of_ne hpa]
    exact (alloc_of_ne hpa).trans hq
  refine ⟨_, by rw [setNext_eq alloc_self, Option.bind_some, setNext_eq hcell], ?_⟩
  refine putAfter h ha hq ?_ rfl ?_
  · show Function.update (Function.update (Function.update l.heap a _) a _) p _ = _
    rw [Function.update_idem]
  · show l.last = _
    rw [h.last]
    simp

/-- The cells, with a new one before the first that has a larger key. -/
abbrev insertCell (c : Nat × Entry α) (cells : List (Nat × Entry α)) : List (Nat × Entry α) :=
  cells.orderedInsert (fun c d => c.2.Before d.2) c

theorem map_insertCell : (insertCell (a, e) cells).map Prod.snd =
    (cells.map Prod.snd).orderedInsert Entry.Before e :=
  List.map_orderedInsert _ _ Prod.snd cells (a, e) (fun _ _ => Iff.rfl) fun _ _ => Iff.rfl

/-- The loop, by induction on the cells behind `ptr`. -/
theorem insertLoop (h : Holds l (xs ++ (p, v) :: ys)) (ha : l.heap a = none) (hn : ys.length < n) :
    ∃ l', (l.alloc a e).insertLoop a e.key n (some p) = some l' ∧
      Holds l' (xs ++ (p, v) :: insertCell (a, e) ys) := by
  obtain ⟨n, rfl⟩ : ∃ k, n = k + 1 := ⟨n - 1, by omega⟩
  obtain ⟨next, hp, hys⟩ := h.cell
  have hcell := (alloc_of_ne (e := e) (ne_of_free hp ha)).trans hp
  induction ys generalizing xs p v n next with
  | nil =>
    obtain rfl : next = none := hys
    obtain ⟨l', hl', hholds⟩ := h.putLast ha
    refine ⟨l', ?_, hholds⟩
    rw [LinkedList.insertLoop, Option.bind_some, hcell, Option.bind_some]
    exact hl'
  | cons y ys ih =>
    obtain ⟨q, w⟩ := y
    obtain ⟨rfl, next', hq, hrest⟩ := hys
    have hcell' := (alloc_of_ne (e := e) (ne_of_free hq ha)).trans hq
    by_cases hlt : e.key < w.key
    · obtain ⟨l', hl', hholds⟩ := h.putBetween (e := e) ha
      refine ⟨l', ?_, ?_⟩
      · simp only [LinkedList.insertLoop, Option.bind_some, hcell, hcell', if_pos hlt]
        exact hl'
      · rw [insertCell, List.orderedInsert_cons, if_pos (show e.Before w from hlt)]
        exact hholds
    · -- `ptr` goes on to `q`: the cell that it leaves joins those before
      obtain ⟨m, rfl⟩ : ∃ k, n = k + 1 := ⟨n - 1, by rw [List.length_cons] at hn; omega⟩
      have hbehind : Holds l ((xs ++ [(p, v)]) ++ (q, w) :: ys) := by simpa using h
      have hfuel : ys.length < m + 1 := by
        rw [List.length_cons] at hn
        omega
      obtain ⟨l', hl', hholds⟩ := ih hbehind m hfuel next' hq hrest hcell'
      refine ⟨l', ?_, ?_⟩
      · rw [LinkedList.insertLoop]
        simp only [Option.bind_some, hcell, hcell', if_neg hlt]
        exact hl'
      · rw [insertCell, List.orderedInsert_cons, if_neg (show ¬ e.Before w from hlt)]
        simpa using hholds

/-! ### The operations -/

theorem Append (h : Holds l cells) (ha : l.heap a = none) (item : α) :
    ∃ l', l.Append a item = some l' ∧ Holds l' (cells ++ [(a, ⟨item, 0⟩)]) := by
  have hempty : (l.alloc a ⟨item, 0⟩).IsEmpty = cells.isEmpty := h.isEmpty
  rcases List.eq_nil_or_concat cells with rfl | ⟨xs, x, rfl⟩
  · exact ⟨_, by simp only [LinkedList.Append, hempty, List.isEmpty_nil, if_true], h.putOnly ha⟩
  · rw [List.concat_eq_append] at h hempty ⊢
    obtain ⟨l', hl', hholds⟩ := h.putLast (e := ⟨item, 0⟩) ha
    refine ⟨l', ?_, by simpa using hholds⟩
    simp only [LinkedList.Append, hempty]
    simpa using hl'

theorem Prepend (h : Holds l cells) (ha : l.heap a = none) (item : α) :
    ∃ l', l.Prepend a item = some l' ∧ Holds l' ((a, ⟨item, 0⟩) :: cells) := by
  have hempty : (l.alloc a ⟨item, 0⟩).IsEmpty = cells.isEmpty := h.isEmpty
  cases cells with
  | nil =>
    exact ⟨_, by simp only [LinkedList.Prepend, hempty, List.isEmpty_nil, if_true], h.putOnly ha⟩
  | cons x ys =>
    obtain ⟨l', hl', hholds⟩ := h.putFirst (e := ⟨item, 0⟩) ha
    refine ⟨l', ?_, hholds⟩
    simp only [LinkedList.Prepend, hempty]
    simpa using hl'

theorem SortedInsert (h : Holds l cells) (ha : l.heap a = none) (hn : cells.length ≤ n) (item : α)
    (sortKey : Int) :
    ∃ l', l.SortedInsert n a item sortKey = some l' ∧
      Holds l' (insertCell (a, ⟨item, sortKey⟩) cells) := by
  have hempty : (l.alloc a ⟨item, sortKey⟩).IsEmpty = cells.isEmpty := h.isEmpty
  cases cells with
  | nil =>
    exact ⟨_, by simp only [LinkedList.SortedInsert, hempty, List.isEmpty_nil, if_true],
      h.putOnly ha⟩
  | cons x ys =>
    obtain ⟨p, v⟩ := x
    obtain ⟨hfirst, next, hp, -⟩ := h.chain
    replace hfirst : (l.alloc a ⟨item, sortKey⟩).first = some p := hfirst
    have hcell := (alloc_of_ne (e := ⟨item, sortKey⟩) (ne_of_free hp ha)).trans hp
    by_cases hlt : sortKey < v.key
    · obtain ⟨l', hl', hholds⟩ := h.putFirst (e := ⟨item, sortKey⟩) ha
      refine ⟨l', ?_, ?_⟩
      · simp only [LinkedList.SortedInsert, hempty, hfirst, hcell, Option.bind_some, if_pos hlt]
        simpa using hl'
      · rw [insertCell, List.orderedInsert_cons,
          if_pos (show Entry.Before ⟨item, sortKey⟩ v from hlt)]
        exact hholds
    · have hlist : Holds l ([] ++ (p, v) :: ys) := h
      obtain ⟨l', hl', hholds⟩ := hlist.insertLoop (e := ⟨item, sortKey⟩) ha
        (show ys.length < n from hn)
      refine ⟨l', ?_, ?_⟩
      · simp only [LinkedList.SortedInsert, hempty, hfirst, hcell, Option.bind_some, if_neg hlt]
        simpa using hl'
      · rw [insertCell, List.orderedInsert_cons,
          if_neg (show ¬ Entry.Before ⟨item, sortKey⟩ v from hlt)]
        exact hholds

/-- The first cell is out of memory. -/
theorem removed (h : Holds l ((p, v) :: ys)) {l' : LinkedList α}
    (hheap : l'.heap = Function.update l.heap p none) (hfirst : Seg l.heap l'.first ys none)
    (hlast : l'.last = (ys.map Prod.fst).getLast?) : Holds l' ys := by
  obtain ⟨hnot, hnodup⟩ := List.nodup_cons.mp h.nodup
  refine ⟨hheap ▸ (Seg.update hnot _).mpr hfirst, hnodup, hlast, fun b hb => ?_⟩
  rw [hheap]
  by_cases hbp : b = p
  · rw [hbp, Function.update_self]
  · rw [Function.update_of_ne hbp]
    exact h.rest b (by simpa [hbp] using hb)

theorem SortedRemove (h : Holds l cells) :
    ∃ l', l.SortedRemove = some (l', (cells.map Prod.snd).head?) ∧ Holds l' cells.tail := by
  have hempty := h.isEmpty
  cases cells with
  | nil => exact ⟨l, by rw [LinkedList.SortedRemove, hempty]; rfl, h⟩
  | cons x ys =>
    obtain ⟨p, v⟩ := x
    obtain ⟨hfirst, next, hp, hys⟩ := h.chain
    have hlast := h.last
    cases ys with
    | nil =>
      have heq : l.first = l.last := hfirst.trans hlast.symm
      have hholds : Holds ⟨Function.update l.heap p none, none, none⟩ [] := h.removed rfl rfl rfl
      refine ⟨_, ?_, hholds⟩
      simp only [LinkedList.SortedRemove, hempty, if_pos heq]
      rw [hfirst, Option.bind_some, hp, Option.map_some]
      rfl
    | cons y ys =>
      -- the last cell is another one, as no cell is in the list twice
      have hne : l.first ≠ l.last := by
        intro heq
        rw [hlast, hfirst, List.map_cons, List.map_cons, List.getLast?_cons_cons] at heq
        exact (List.nodup_cons.mp h.nodup).1 (List.mem_of_getLast? heq.symm)
      have hholds : Holds ⟨Function.update l.heap p none, next, l.last⟩ (y :: ys) :=
        h.removed rfl hys hlast
      refine ⟨_, ?_, hholds⟩
      simp only [LinkedList.SortedRemove, hempty, if_neg hne]
      rw [hfirst, Option.bind_some, hp, Option.map_some]
      rfl

theorem mapcarFrom {q : Option Nat} (hs : Seg l.heap q cells none) (hn : cells.length ≤ n) :
    l.mapcarFrom n q = some (cells.map fun c => c.2.item) := by
  induction cells generalizing q n with
  | nil =>
    obtain rfl : q = none := hs
    rw [LinkedList.mapcarFrom]
    rfl
  | cons x cells ih =>
    obtain ⟨n, rfl⟩ : ∃ k, n = k + 1 := ⟨n - 1, by rw [List.length_cons] at hn; omega⟩
    obtain ⟨rfl, next, hx, hrest⟩ := hs
    rw [LinkedList.mapcarFrom, hx, Option.bind_some, ih hrest (Nat.le_of_succ_le_succ hn)]
    rfl

/-- **Each call does what it does to a list.** -/
theorem serve (h : Holds l cells) (ha : l.heap a = none) (hn : cells.length ≤ n) (r : Request α) :
    ∃ l' cells', l.serve n a r = some (l', (answer (cells.map Prod.snd) r).2) ∧ Holds l' cells' ∧
      cells'.map Prod.snd = (answer (cells.map Prod.snd) r).1 := by
  cases r with
  | Append item =>
    obtain ⟨l', hl', hholds⟩ := h.Append ha item
    exact ⟨l', _, by rw [LinkedList.serve, hl']; rfl, hholds, List.map_append⟩
  | Prepend item =>
    obtain ⟨l', hl', hholds⟩ := h.Prepend ha item
    exact ⟨l', _, by rw [LinkedList.serve, hl']; rfl, hholds, rfl⟩
  | SortedInsert item sortKey =>
    obtain ⟨l', hl', hholds⟩ := h.SortedInsert ha hn item sortKey
    exact ⟨l', _, by rw [LinkedList.serve, hl']; rfl, hholds, map_insertCell⟩
  | SortedRemove =>
    obtain ⟨l', hl', hholds⟩ := h.SortedRemove
    exact ⟨l', _, by rw [LinkedList.serve, hl']; rfl, hholds, List.map_tail⟩
  | Remove =>
    obtain ⟨l', hl', hholds⟩ := h.SortedRemove
    refine ⟨l', _, ?_, hholds, List.map_tail⟩
    rw [LinkedList.serve, LinkedList.Remove, hl']
    simp [answer, Function.comp_def]

end Holds

/-! ### More turns -/

namespace LinkedList

variable {l' : LinkedList α} {ptr : Option Nat} {sortKey : Int} {m : Nat}

theorem insertLoop_more (h : l.insertLoop a sortKey n ptr = some l') (hle : n ≤ m) :
    l.insertLoop a sortKey m ptr = some l' := by
  induction n generalizing m ptr with
  | zero => cases h
  | succ n ih =>
    obtain ⟨m, rfl⟩ : ∃ k, m = k + 1 := ⟨m - 1, by omega⟩
    rw [insertLoop] at h ⊢
    obtain ⟨p, hp, hturn⟩ := Option.bind_eq_some_iff.mp h
    obtain ⟨c, hc, hnext⟩ := Option.bind_eq_some_iff.mp hturn
    rw [hp, Option.bind_some, hc, Option.bind_some]
    cases hq : c.next with
    | none =>
      rw [hq] at hnext
      exact hnext
    | some q =>
      rw [hq] at hnext
      obtain ⟨d, hd, hcompare⟩ := Option.bind_eq_some_iff.mp hnext
      show (l.heap q).bind _ = _
      rw [hd, Option.bind_some]
      by_cases hlt : sortKey < d.val.key
      · rw [if_pos hlt] at hcompare ⊢
        exact hcompare
      · rw [if_neg hlt] at hcompare ⊢
        exact ih hcompare (Nat.le_of_succ_le_succ hle)

theorem SortedInsert_more {item : α} (h : l.SortedInsert n a item sortKey = some l') (hle : n ≤ m) :
    l.SortedInsert m a item sortKey = some l' := by
  simp only [SortedInsert] at h ⊢
  by_cases hempty : (l.alloc a ⟨item, sortKey⟩).IsEmpty
  · rw [if_pos hempty] at h ⊢
    exact h
  · rw [if_neg hempty] at h ⊢
    obtain ⟨f, hf, hcell⟩ := Option.bind_eq_some_iff.mp h
    obtain ⟨c, hc, hcompare⟩ := Option.bind_eq_some_iff.mp hcell
    rw [hf, Option.bind_some, hc, Option.bind_some, ← hf]
    by_cases hlt : sortKey < c.val.key
    · rw [if_pos hlt] at hcompare ⊢
      exact hcompare
    · rw [if_neg hlt] at hcompare ⊢
      exact insertLoop_more hcompare hle

/-- A call that returned returns the same when its loop may take more turns. -/
theorem serve_more {r : Request α} {res : LinkedList α × Answer α} (h : l.serve n a r = some res)
    (hle : n ≤ m) : l.serve m a r = some res := by
  cases r with
  | Append item => exact h
  | Prepend item => exact h
  | SortedInsert item sortKey =>
    obtain ⟨l₁, hl₁, rfl⟩ := Option.map_eq_some_iff.mp h
    rw [serve, SortedInsert_more hl₁ hle]
    rfl
  | SortedRemove => exact h
  | Remove => exact h

end LinkedList

/-! ### Runs -/

/-- A step of the code is one of a list. -/
theorem Holds.step {l' : LinkedList α} {s : Request α × Answer α} (h : Holds l cells)
    (hs : ListStep l s l') :
    ∃ cells', Holds l' cells' ∧ AnswerStep (cells.map Prod.snd) s (cells'.map Prod.snd) := by
  obtain ⟨n, a, ha, hserve⟩ := hs
  -- the call returned in `n` turns, and would have in any larger number of them
  obtain ⟨l₁, cells', hl₁, hholds, hcells⟩ := h.serve ha (Nat.le_max_right n cells.length) s.1
  rw [LinkedList.serve_more hserve (Nat.le_max_left n cells.length)] at hl₁
  obtain ⟨rfl, hanswer⟩ := Prod.mk.inj (Option.some.inj hl₁)
  exact ⟨cells', hholds, Prod.ext hcells.symm hanswer.symm⟩

theorem inOrder_of_path {xs ys : List (Entry α)} {log : List (Request α × Answer α)}
    (h : Path AnswerStep xs log ys) (hlog : ∀ s ∈ log, s.1.Sorted) (hxs : InOrder xs) :
    InOrder ys := by
  induction h with
  | nil _ => exact hxs
  | cons hstep _ ih =>
    exact ih (fun s hs => hlog s (List.mem_cons_of_mem _ hs))
      (hstep.inOrder (hlog _ (List.mem_cons_self ..)) hxs)

/-- **A list of the kernel is a list.** After any calls, with new elements at any free addresses,
the cells of the list are all that is in memory; the calls returned what they return on a list in
the mathematical sense, which `Mapcar` goes through; the next call returns, whatever it is. Where
all calls are sorted ones, the elements are in the order of their keys. -/
theorem lists_refine {log : List (Request α × Answer α)}
    (h : Path ListStep (LinkedList.new : LinkedList α) log l) :
    ∃ cells, Holds l cells ∧ Path AnswerStep [] log (cells.map Prod.snd) ∧
      (∀ n, cells.length ≤ n → l.Mapcar n = some (cells.map fun c => c.2.item)) ∧
      (∀ n a r, cells.length ≤ n → l.heap a = none → ∃ res, l.serve n a r = some res) ∧
      ((∀ s ∈ log, s.1.Sorted) → InOrder (cells.map Prod.snd)) := by
  obtain ⟨_, hpath, cells, hholds, rfl⟩ := h.refine
    (R := fun l xs => ∃ cells, Holds l cells ∧ cells.map Prod.snd = xs)
    (fun l s l' xs hR hs => by
      obtain ⟨cells, hholds, rfl⟩ := hR
      obtain ⟨cells', hholds', hanswer⟩ := hholds.step hs
      exact ⟨_, hanswer, cells', hholds', rfl⟩)
    ⟨[], Holds.new, rfl⟩
  refine ⟨cells, hholds, hpath, fun n hn => Holds.mapcarFrom hholds.chain hn, fun n a r hn ha => ?_,
    fun hlog => inOrder_of_path hpath hlog List.Pairwise.nil⟩
  obtain ⟨l', _, hl', -⟩ := hholds.serve ha hn r
  exact ⟨_, hl'⟩

/-- Three elements, one of them before another that came earlier, and the first is taken out. -/
theorem lists_refine_sorted : ∃ (l : LinkedList Char) (cells : List (Nat × Entry Char)),
    Holds l cells ∧ l.Mapcar 2 = some ['b', 'c'] ∧ InOrder (cells.map Prod.snd) := by
  have hpath : Path ListStep (LinkedList.new : LinkedList Char)
      [(.SortedInsert 'b' 5, none), (.SortedInsert 'a' 3, none), (.SortedInsert 'c' 5, none),
        (.SortedRemove, some ('a', some 3))] _ :=
    .cons ⟨0, 7, rfl, rfl⟩ (.cons ⟨1, 4, rfl, rfl⟩ (.cons ⟨2, 9, rfl, rfl⟩
      (.cons ⟨0, 0, rfl, rfl⟩ (.nil _))))
  obtain ⟨cells, hholds, -, -, -, horder⟩ := lists_refine hpath
  exact ⟨_, cells, hholds, rfl, horder (by simp [Request.Sorted])⟩

end Nachos.Lists

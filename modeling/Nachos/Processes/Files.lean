import Nachos.BitMap
import Nachos.Lib.Path

/-!
# The table of open files

`Table` (`userprog/addrspace.cc`) and the syscalls `Open`, `Write`, `Read` and `Close`
(`userprog/exception.cc`) of one process.

The constructor of `AddrSpace` keeps the ids of the console out of the way: it puts a null
pointer in the first two slots. `Get` finds nothing there, but `Remove` only looks at the bit,
so `Close` of a console id frees the slot, and an `Open` later returns that id. The syscalls
keep the ids apart in exactly the runs without such a `Close` (`ids_kept_apart_iff`).

`copied` is what `copyin` has copied, if it did. The name selects the file, so the model only
says whether `FileSystem::Open` finds one. `OpenFile` objects are numbered as they are made.
-/

namespace Nachos.Files

open Lib (Path Restrict)

def MaxOpenFiles : Nat := 256

def ConsoleInput : Int := 0

def ConsoleOutput : Int := 1

/-! ## `Table` -/

/-- `class Table`; `none` in a slot is a null pointer. -/
structure Table where
  map : BitMap
  table : Nat → Option Nat
  size : Nat

namespace Table

def new (s : Nat) : Table where
  map := .new s
  table := fun _ => none
  size := s

def Get (t : Table) (i : Int) : Option Nat :=
  if 0 ≤ i ∧ i < t.size ∧ t.map.test i.toNat = true then t.table i.toNat else none

/-- The slot is `-1` when there is none. -/
def Put (t : Table) (f : Option Nat) : Int × Table :=
  match t.map.find with
  | (none, _) => (-1, t)
  | (some i, map) => (i, { t with map := map, table := Function.update t.table i f })

def Remove (t : Table) (i : Int) : Option Nat × Table :=
  if 0 ≤ i ∧ i < t.size ∧ t.map.test i.toNat = true then
    (t.table i.toNat, { t with
      map := t.map.clear i.toNat
      table := Function.update t.table i.toNat none })
  else (none, t)

theorem Remove_of_test {t : Table} {i : Int} (hneg : 0 ≤ i) (hsize : i < t.size)
    (hbit : t.map.test i.toNat = true) :
    (t.Remove i).2 = { t with
      map := t.map.clear i.toNat
      table := Function.update t.table i.toNat none } := by
  unfold Remove
  rw [if_pos ⟨hneg, hsize, hbit⟩]

end Table

/-! ## The syscalls -/

/-- The `fileTable` of an `AddrSpace` and the number of `OpenFile` objects made. `opened` is
auxiliary: the ids that `Open` has returned and that have not been closed since, with their
files. -/
structure Space where
  fileTable : Table
  files : Nat := 0
  opened : Int → Option Nat := fun _ => none

/-- Where the bytes of a `Write` go. -/
inductive Written where
  | nothing
  | console (buf : List UInt8)
  | file (f : Nat) (buf : List UInt8)
  deriving DecidableEq, Repr

/-- Where the bytes of a `Read` come from. -/
inductive Source where
  | nothing
  | console
  | file (f : Nat)
  deriving DecidableEq, Repr

namespace Space

/-- The constructor of `AddrSpace`, as far as the table goes. -/
def new : Space where
  fileTable := ((((Table.new MaxOpenFiles).Put none).2).Put none).2

variable (s : Space)

/-- The file is deleted when it cannot be put into the table. -/
def Open_Syscall (copied found : Bool) : Int × Space :=
  if copied = false then (-1, s)
  else if found = false then (-1, s)
  else
    let (id, fileTable) := s.fileTable.Put (some s.files)
    (id, {
      fileTable := fileTable
      files := s.files + 1
      opened := if id = -1 then s.opened else Function.update s.opened id (some s.files) })

def Write_Syscall (copied : Option (List UInt8)) (id : Int) : Written :=
  if id = ConsoleInput then .nothing
  else match copied with
  | none => .nothing
  | some buf =>
    if id = ConsoleOutput then .console buf
    else match s.fileTable.Get id with
    | some f => .file f buf
    | none => .nothing

/-- `read` is what `OpenFile::Read` would return. -/
def Read_Syscall (len id : Int) (read : Nat → Int) : Source × Int :=
  if id = ConsoleOutput then (.nothing, -1)
  else if id = ConsoleInput then (.console, len)
  else match s.fileTable.Get id with
  | some f => (.file f, read f)
  | none => (.nothing, -1)

def Close_Syscall (fd : Int) : Space :=
  { s with
    fileTable := (s.fileTable.Remove fd).2
    opened := Function.update s.opened fd none }

end Space

inductive Call where
  | Open (copied found : Bool)
  | Write (copied : Option (List UInt8)) (id : Int)
  | Read (len id : Int)
  | Close (fd : Int)
  deriving DecidableEq, Repr

def Space.next (s : Space) : Call → Space
  | .Open copied found => (s.Open_Syscall copied found).2
  | .Write _ _ | .Read _ _ => s
  | .Close fd => s.Close_Syscall fd

def Step (s : Space) (c : Call) (s' : Space) : Prop := s.next c = s'

/-! ## Ids and their files -/

/-- The call keeps file ids apart from the console and from each other: an id that `Open`
returns is no console id and no id of an open file, a `Write` or `Read` with the id of an open
file is one of that file, and `Close` of another id leaves the table as it is. -/
def Right (s : Space) : Call → Prop
  | .Open copied found =>
    let id := (s.Open_Syscall copied found).1
    id ≠ ConsoleInput ∧ id ≠ ConsoleOutput ∧ s.opened id = none
  | .Write copied id => ∀ f buf, s.opened id = some f → copied = some buf →
      s.Write_Syscall copied id = .file f buf
  | .Read len id => ∀ f read, s.opened id = some f →
      s.Read_Syscall len id read = (.file f, read f)
  | .Close fd => s.opened fd = none → (s.Close_Syscall fd).fileTable = s.fileTable

/-- The slots of the console are in use, and are no files' slots. A slot from 2 on is in use
exactly when its index is the id of an open file, which it has. -/
structure Ok (s : Space) : Prop where
  size : s.fileTable.size = MaxOpenFiles
  numBits : s.fileTable.map.numBits = MaxOpenFiles
  console : ∀ i : Nat, i < 2 → s.fileTable.map.test i = true
  opened : ∀ id f, s.opened id = some f → 2 ≤ id ∧ id < MaxOpenFiles ∧
    s.fileTable.map.test id.toNat = true ∧ s.fileTable.table id.toNat = some f
  free : ∀ i : Nat, 2 ≤ i → s.opened i = none → s.fileTable.map.test i = false

/-- The call closes a console id. -/
def ClosesConsole : Call → Prop
  | .Close fd => fd = ConsoleInput ∨ fd = ConsoleOutput
  | _ => False

theorem map_new :
    Space.new.fileTable.map = ((BitMap.new MaxOpenFiles).mark 0).mark 1 := rfl

theorem ok_new : Ok .new where
  size := rfl
  numBits := rfl
  console i hi := by
    rw [map_new, BitMap.test_mark, BitMap.test_mark]
    split
    · rfl
    · rw [if_pos (by omega)]
  opened := nofun
  free i hi _ := by
    rw [map_new, BitMap.test_mark, if_neg (by omega), BitMap.test_mark, if_neg (by omega)]
    rfl

namespace Ok

variable {s : Space}

/-- Nothing is open below the first file id. -/
theorem none_of_lt (h : Ok s) {id : Int} (hid : id < 2) : s.opened id = none := by
  cases hopen : s.opened id with
  | none => rfl
  | some f =>
    obtain ⟨hlow, -⟩ := h.opened id f hopen
    omega

/-- `Get` finds the file of an open id. -/
theorem get (h : Ok s) {id : Int} {f : Nat} (hopen : s.opened id = some f) :
    s.fileTable.Get id = some f := by
  obtain ⟨hlow, hhigh, hbit, hslot⟩ := h.opened id f hopen
  unfold Table.Get
  rw [h.size, if_pos ⟨by omega, hhigh, hbit⟩]
  exact hslot

/-- A clear bit is that of a file id which is not in use. -/
theorem put (h : Ok s) {i : Nat} {map : BitMap} (hfind : s.fileTable.map.find = (some i, map)) :
    2 ≤ i ∧ i < MaxOpenFiles ∧ s.opened i = none ∧ map = s.fileTable.map.mark i := by
  obtain ⟨hlt, hclear, -, hmap⟩ := BitMap.find_some hfind
  have hlow : 2 ≤ i := by
    by_contra hconsole
    cases hclear.symm.trans (h.console i (by omega))
  refine ⟨hlow, h.numBits ▸ hlt, ?_, hmap⟩
  cases hopen : s.opened i with
  | none => rfl
  | some f =>
    obtain ⟨-, -, hbit, -⟩ := h.opened i f hopen
    cases hclear.symm.trans hbit

/-- `Remove` has no effect for an id that is neither open nor one of the console. -/
theorem remove_none (h : Ok s) {fd : Int} (hopen : s.opened fd = none)
    (hconsole : ¬ ClosesConsole (.Close fd)) : s.fileTable.Remove fd = (none, s.fileTable) := by
  obtain ⟨hin, hout⟩ := not_or.mp hconsole
  unfold Table.Remove
  rw [if_neg]
  rintro ⟨hneg, -, hbit⟩
  have hlow : 2 ≤ fd.toNat := by
    unfold ConsoleInput at hin
    unfold ConsoleOutput at hout
    omega
  have hcast : (fd.toNat : Int) = fd := by omega
  cases hbit.symm.trans (h.free fd.toNat hlow (by rw [hcast, hopen]))

/-- The slot of a console id is freed. -/
theorem remove_console (h : Ok s) {fd : Int} (hconsole : ClosesConsole (.Close fd)) :
    (s.fileTable.Remove fd).2 ≠ s.fileTable := by
  have hrange : 0 ≤ fd ∧ fd < 2 := by
    rcases hconsole with rfl | rfl
    · decide
    · decide
  have hbit := h.console fd.toNat (by omega)
  have hsize : fd < s.fileTable.size := by
    rw [h.size]
    unfold MaxOpenFiles
    omega
  intro hsame
  rw [Table.Remove_of_test hrange.1 hsize hbit] at hsame
  have hmap : s.fileTable.map.clear fd.toNat = s.fileTable.map := congrArg Table.map hsame
  rw [← hmap, BitMap.test_clear, if_pos rfl] at hbit
  cases hbit

theorem close (h : Ok s) {fd : Int} (hconsole : ¬ ClosesConsole (.Close fd)) :
    Ok (s.Close_Syscall fd) := by
  cases hopen : s.opened fd with
  | none =>
    have hsame : s.Close_Syscall fd = s := by
      unfold Space.Close_Syscall
      rw [h.remove_none hopen hconsole, ← hopen, Function.update_eq_self]
    rw [hsame]
    exact h
  | some f =>
    obtain ⟨hlow, hhigh, hbit, -⟩ := h.opened fd f hopen
    have hclose : s.Close_Syscall fd = { s with
        fileTable := { s.fileTable with
          map := s.fileTable.map.clear fd.toNat
          table := Function.update s.fileTable.table fd.toNat none }
        opened := Function.update s.opened fd none } := by
      have hsize : fd < s.fileTable.size := by
        rw [h.size]
        exact hhigh
      unfold Space.Close_Syscall
      rw [Table.Remove_of_test (by omega) hsize hbit]
    rw [hclose]
    refine ⟨h.size, h.numBits, fun i hi => ?_, fun id g hid => ?_, fun i hi hnone => ?_⟩
    · show (s.fileTable.map.clear fd.toNat).test i = true
      rw [BitMap.test_clear, if_neg (by omega)]
      exact h.console i hi
    · have hne : id ≠ fd := by
        rintro rfl
        cases (Function.update_self id none s.opened).symm.trans hid
      have hwas : s.opened id = some g := (Function.update_of_ne hne _ _).symm.trans hid
      obtain ⟨hlow', hhigh', hbit', hslot'⟩ := h.opened id g hwas
      refine ⟨hlow', hhigh', ?_, ?_⟩
      · show (s.fileTable.map.clear fd.toNat).test id.toNat = true
        rw [BitMap.test_clear, if_neg (by omega)]
        exact hbit'
      · exact (Function.update_of_ne (by omega) _ _).trans hslot'
    · show (s.fileTable.map.clear fd.toNat).test i = false
      rw [BitMap.test_clear]
      split
      · rfl
      · apply h.free i hi
        exact (Function.update_of_ne (by omega) _ _).symm.trans hnone

/-- What `Open` does: it fails, or uses a slot that was not in use. -/
theorem open_cases (h : Ok s) (copied found : Bool) :
    ((s.Open_Syscall copied found).1 = -1 ∧
      ((s.Open_Syscall copied found).2 = s ∨
        (s.Open_Syscall copied found).2 = { s with files := s.files + 1 })) ∨
    ∃ i : Nat, 2 ≤ i ∧ i < MaxOpenFiles ∧ s.opened i = none ∧
      s.Open_Syscall copied found = ((i : Int), ({
        fileTable := { s.fileTable with
          map := s.fileTable.map.mark i
          table := Function.update s.fileTable.table i (some s.files) }
        files := s.files + 1
        opened := Function.update s.opened i (some s.files) } : Space)) := by
  unfold Space.Open_Syscall
  split
  · exact .inl ⟨rfl, .inl rfl⟩
  split
  · exact .inl ⟨rfl, .inl rfl⟩
  unfold Table.Put
  cases hfind : s.fileTable.map.find with
  | mk slot map =>
    cases slot with
    | none => exact .inl ⟨rfl, .inr rfl⟩
    | some i =>
      obtain ⟨hlow, hhigh, hnone, rfl⟩ := h.put hfind
      refine .inr ⟨i, hlow, hhigh, hnone, ?_⟩
      dsimp only
      rw [if_neg (by omega)]

theorem openFile (h : Ok s) (copied found : Bool) : Ok (s.Open_Syscall copied found).2 := by
  rcases h.open_cases copied found with ⟨-, hsame | hsame⟩ | ⟨i, hlow, hhigh, hnone, heq⟩
  · rw [hsame]
    exact h
  · rw [hsame]
    exact ⟨h.size, h.numBits, h.console, h.opened, h.free⟩
  rw [heq]
  refine ⟨h.size, h.numBits, fun j hj => ?_, fun id g hid => ?_, fun j hj hfree => ?_⟩
  · show (s.fileTable.map.mark i).test j = true
    rw [BitMap.test_mark, if_neg (by omega)]
    exact h.console j hj
  · by_cases hid' : id = i
    · subst hid'
      have hg : s.files = g := by
        have hself := (Function.update_self (i : Int) (some s.files) s.opened).symm.trans hid
        exact Option.some.inj hself
      refine ⟨by omega, by omega, ?_, ?_⟩
      · show (s.fileTable.map.mark i).test i = true
        rw [BitMap.test_mark, if_pos rfl]
      · rw [← hg]
        exact Function.update_self _ _ _
    · have hwas : s.opened id = some g := (Function.update_of_ne hid' _ _).symm.trans hid
      obtain ⟨hlow', hhigh', hbit', hslot'⟩ := h.opened id g hwas
      refine ⟨hlow', hhigh', ?_, ?_⟩
      · show (s.fileTable.map.mark i).test id.toNat = true
        rw [BitMap.test_mark, hbit', ite_self]
      · exact (Function.update_of_ne (by omega) _ _).trans hslot'
  · have hne : (j : Int) ≠ i := by
      intro heq
      rw [heq] at hfree
      cases (Function.update_self (i : Int) (some s.files) s.opened).symm.trans hfree
    show (s.fileTable.map.mark i).test j = false
    rw [BitMap.test_mark, if_neg (by omega)]
    exact h.free j hj ((Function.update_of_ne hne _ _).symm.trans hfree)

theorem step (h : Ok s) {c : Call} (hconsole : ¬ ClosesConsole c) : Ok (s.next c) := by
  cases c with
  | Open copied found => exact h.openFile copied found
  | Write copied id => exact h
  | Read len id => exact h
  | Close fd => exact h.close hconsole

/-- **Only closing a console id goes wrong.** -/
theorem right_iff (h : Ok s) (c : Call) : Right s c ↔ ¬ ClosesConsole c := by
  cases c with
  | Open copied found =>
    refine iff_of_true ?_ not_false
    show (s.Open_Syscall copied found).1 ≠ ConsoleInput ∧
      (s.Open_Syscall copied found).1 ≠ ConsoleOutput ∧
        s.opened (s.Open_Syscall copied found).1 = none
    rcases h.open_cases copied found with ⟨hid, -⟩ | ⟨i, hlow, -, hnone, heq⟩
    · rw [hid]
      exact ⟨by decide, by decide, h.none_of_lt (by omega)⟩
    · rw [heq]
      refine ⟨?_, ?_, hnone⟩
      · unfold ConsoleInput
        dsimp only
        omega
      · unfold ConsoleOutput
        dsimp only
        omega
  | Write copied id =>
    refine iff_of_true ?_ not_false
    rintro f buf hopen rfl
    obtain ⟨hlow, -⟩ := h.opened id f hopen
    have hin : id ≠ ConsoleInput := by
      unfold ConsoleInput
      omega
    have hout : id ≠ ConsoleOutput := by
      unfold ConsoleOutput
      omega
    simp only [Space.Write_Syscall, if_neg hin, if_neg hout, h.get hopen]
  | Read len id =>
    refine iff_of_true ?_ not_false
    intro f read hopen
    obtain ⟨hlow, -⟩ := h.opened id f hopen
    have hin : id ≠ ConsoleInput := by
      unfold ConsoleInput
      omega
    have hout : id ≠ ConsoleOutput := by
      unfold ConsoleOutput
      omega
    simp only [Space.Read_Syscall, if_neg hin, if_neg hout, h.get hopen]
  | Close fd =>
    constructor
    · intro hright hconsole
      have hlow : fd < 2 := by
        rcases hconsole with rfl | rfl
        · decide
        · decide
      exact h.remove_console hconsole (hright (h.none_of_lt hlow))
    · intro hconsole hopen
      show (s.fileTable.Remove fd).2 = s.fileTable
      rw [h.remove_none hopen hconsole]

end Ok

/-- From a state in which the tables are in order, a run keeps the ids apart exactly when none of
its calls closes a console id. -/
theorem restrict_iff {s s' : Space} {l : List Call} (hrun : Path Step s l s') (h : Ok s) :
    Path (Restrict Step Right) s l s' ↔ ∀ c ∈ l, ¬ ClosesConsole c := by
  induction hrun with
  | nil s => exact iff_of_true (.nil s) nofun
  | cons hstep hrest ih =>
    rename_i s t u c l
    cases hstep
    by_cases hconsole : ClosesConsole c
    · -- the first call that closes one already goes wrong
      constructor
      · intro hpath
        cases hpath with
        | cons hfirst _ => exact absurd ((h.right_iff c).mp hfirst.2) (not_not.mpr hconsole)
      · intro hall
        exact absurd hconsole (hall c List.mem_cons_self)
    · have hih := ih (h.step hconsole)
      constructor
      · intro hpath
        cases hpath with
        | cons hfirst hpath =>
          obtain ⟨rfl, -⟩ := hfirst
          exact List.forall_mem_cons.mpr ⟨hconsole, hih.mp hpath⟩
      · intro hall
        have htail := hih.mpr fun c hc => hall c (List.mem_cons_of_mem _ hc)
        exact .cons ⟨rfl, (h.right_iff c).mpr hconsole⟩ htail

/-- **Ids are kept apart** in a run of a new process, at each of its calls, exactly when no call
closes a console id. -/
theorem ids_kept_apart_iff {s : Space} {l : List Call} (hrun : Path Step .new l s) :
    Path (Restrict Step Right) .new l s ↔ ∀ c ∈ l, ¬ ClosesConsole c :=
  restrict_iff hrun ok_new

/-- Two files, one closed, and the slot used again. -/
def twoFiles : List Call :=
  [.Open true true, .Open true true, .Close 2, .Close 7, .Write (some [65]) 3, .Open true true]

theorem ids_kept_apart_twoFiles :
    ∃ s, Path (Restrict Step Right) .new twoFiles s ∧ s.opened 2 = some 2 ∧ s.opened 3 = some 1 := by
  have hrun : (Lib.execute (fun s c => some (s.next c)) Space.new twoFiles).any (fun s =>
      decide (s.opened 2 = some 2 ∧ s.opened 3 = some 1)) = true := by
    decide +kernel
  obtain ⟨s, hs, hdec⟩ := (Option.any_eq_true _ _).mp hrun
  have hpath : Path Step .new twoFiles s := Lib.path_of_execute (fun _ _ _ => Option.some.inj) hs
  have hconsole : ∀ c ∈ twoFiles, ¬ ClosesConsole c := by
    simp [twoFiles, ClosesConsole, ConsoleInput, ConsoleOutput]
  exact ⟨s, (ids_kept_apart_iff hpath).mpr hconsole, of_decide_eq_true hdec⟩

/-- After `Close(0)`, which is not the id of an open file and takes its slot away, `Open` returns
the id of the console. -/
theorem open_returns_console : ∃ s, Path Step .new [.Close ConsoleInput] s ∧
    Space.new.opened ConsoleInput = none ∧ s.fileTable ≠ Space.new.fileTable ∧
    (s.Open_Syscall true true).1 = ConsoleInput ∧ ¬ Right s (.Open true true) := by
  refine ⟨_, .cons rfl (.nil _), rfl, ok_new.remove_console (.inl rfl), by decide +kernel, ?_⟩
  intro hright
  exact hright.1 (by decide +kernel)

end Nachos.Files

import Nachos.FileSys.Basic

/-!
# The file system: the directory

`filesys/directory.cc`. The table is in memory as it is in its file: entries of twenty bytes, with
the flag at offset 0, the sector of the file header at 4 and the name at 8. Nine characters of a
name count (`cString`), so that longer names that begin alike name one file.
-/

namespace Nachos.FileSys

open Lib Lib.Mem

def FileNameMaxLen : Nat := 9

/-- `sizeof(DirectoryEntry)`. -/
def sizeofEntry : Nat := 20

/-- The characters of a string that are looked at: up to its end, `n` at most. -/
def cString : Nat → (Nat → Byte) → List Byte
  | 0, _ => []
  | n + 1, s => if s 0 = 0 then [] else s 0 :: cString n fun i => s (i + 1)

/-- `strncmp`. -/
def strncmp : (Nat → Byte) → (Nat → Byte) → Nat → Int
  | _, _, 0 => 0
  | a, b, n + 1 =>
    if a 0 ≠ b 0 then (a 0).toNat - (b 0).toNat
    else if a 0 = 0 then 0
    else strncmp (fun i => a (i + 1)) (fun i => b (i + 1)) n

/-- `strncpy(&dst[off], src, n)`: past the end of the string there are zeros. -/
def strncpy (dst : Mem) (off : Nat) (src : Nat → Byte) (n : Nat) : Mem :=
  copy dst off (fun i => (cString n src).getD i 0) 0 n

structure Directory where
  tableSize : Nat
  table : Mem

namespace Directory

def inUse (d : Directory) (i : Nat) : Bool := d.table (sizeofEntry * i) ≠ 0

def sector (d : Directory) (i : Nat) : Int := intAt d.table (sizeofEntry * i + 4)

def name (d : Directory) (i : Nat) : Nat → Byte := fun j => d.table (sizeofEntry * i + 8 + j)

/-- `table[i].inUse = v`. -/
def setInUse (d : Directory) (i : Nat) (v : Byte) : Directory :=
  { d with table := Function.update d.table (sizeofEntry * i) v }

/-- `Directory::Directory`. -/
def new (junk : Mem) (size : Nat) : Directory :=
  (List.range size).foldl (fun d i => d.setInUse i 0) ⟨size, junk⟩

/-- `Directory::FetchFrom`. -/
def FetchFrom (disk junk : Mem) (d : Directory) (file : OpenFile) : Option Directory :=
  (file.ReadAt disk junk d.table 0 (d.tableSize * sizeofEntry : Nat) 0).map fun (_, table) =>
    { d with table := table }

/-- `Directory::WriteBack`. -/
def WriteBack (disk junk : Mem) (d : Directory) (file : OpenFile) : Option Mem :=
  (file.WriteAt disk junk d.table (d.tableSize * sizeofEntry : Nat) 0).map Prod.snd

/-- `Directory::FindIndex`; `none` stands for `-1`. -/
def FindIndex (d : Directory) (name : Nat → Byte) : Option Nat :=
  (List.range d.tableSize).find? fun i =>
    d.inUse i && strncmp (d.name i) name FileNameMaxLen == 0

/-- `Directory::Find`. -/
def Find (d : Directory) (name : Nat → Byte) : Int :=
  match d.FindIndex name with
  | some i => d.sector i
  | none => -1

/-- An entry is filled. -/
def fill (d : Directory) (i : Nat) (name : Nat → Byte) (newSector : Int) : Directory :=
  let d := d.setInUse i 1
  let table := strncpy d.table (sizeofEntry * i + 8) name FileNameMaxLen
  { d with table := putInt table (sizeofEntry * i + 4) newSector }

/-- `Directory::Add`. -/
def Add (d : Directory) (name : Nat → Byte) (newSector : Int) : Bool × Directory :=
  if d.FindIndex name ≠ none then (false, d)
  else match (List.range d.tableSize).find? fun i => !d.inUse i with
    | some i => (true, d.fill i name newSector)
    | none => (false, d)

/-- `Directory::Remove`. -/
def Remove (d : Directory) (name : Nat → Byte) : Bool × Directory :=
  match d.FindIndex name with
  | some i => (true, d.setInUse i 0)
  | none => (false, d)

end Directory

/-! ### Names -/

theorem strncmp_eq_zero {a b : Nat → Byte} {n : Nat} :
    strncmp a b n = 0 ↔ cString n a = cString n b := by
  induction n generalizing a b with
  | zero => simp [strncmp, cString]
  | succ n ih =>
    unfold strncmp cString
    by_cases hne : a 0 = b 0
    · rw [if_neg (not_not.mpr hne), hne]
      by_cases hzero : b 0 = 0
      · simp [hzero]
      · rw [if_neg hzero, if_neg hzero, if_neg hzero, ih, List.cons.injEq]
        simp
    · rw [if_pos hne]
      have hdiff : ((a 0).toNat : Int) - (b 0).toNat ≠ 0 := fun h =>
        hne (BitVec.eq_of_toNat_eq (by omega))
      refine iff_of_false hdiff ?_
      by_cases ha : a 0 = 0
      · rw [if_pos ha, if_neg (fun hb => hne (ha.trans hb.symm))]
        simp
      · rw [if_neg ha]
        split
        · simp
        · simp [hne]

theorem cString_congr {a b : Nat → Byte} {n : Nat} (h : ∀ i < n, a i = b i) :
    cString n a = cString n b := by
  induction n generalizing a b with
  | zero => rfl
  | succ n ih =>
    unfold cString
    rw [h 0 (by omega), ih fun i hi => h (i + 1) (by omega)]

/-- A string that was copied reads as before. -/
theorem cString_padded {s : Nat → Byte} {n : Nat} :
    cString n (fun i => (cString n s).getD i 0) = cString n s := by
  induction n generalizing s with
  | zero => rfl
  | succ n ih =>
    by_cases hzero : s 0 = 0
    · simp [cString, hzero]
    · have hlist : cString (n + 1) s = s 0 :: cString n fun i => s (i + 1) := if_neg hzero
      rw [hlist, cString]
      simp only [List.getD_cons_zero, List.getD_cons_succ]
      rw [if_neg hzero, ih]

/-! ### Entries -/

namespace Directory

variable {d : Directory} {i j k : Nat} {a : Nat → Byte} {s : Int}

/-- An entry in use: the name that counts, and the sector. -/
def entry (d : Directory) (i : Nat) : Option (List Byte × Int) :=
  if d.inUse i then some (cString FileNameMaxLen (d.name i), d.sector i) else none

/-- An entry depends on its own bytes. -/
theorem entry_congr {d' : Directory}
    (h : ∀ k < sizeofEntry, d'.table (sizeofEntry * i + k) = d.table (sizeofEntry * i + k)) :
    d'.entry i = d.entry i := by
  have hflag : d'.table (sizeofEntry * i) = d.table (sizeofEntry * i) := h 0 (by decide)
  have hsector : d'.sector i = d.sector i := intAt_congr fun k hk => by
    rw [Nat.add_assoc]
    exact h _ (by unfold sizeofEntry; omega)
  have hname : cString FileNameMaxLen (d'.name i) = cString FileNameMaxLen (d.name i) :=
    cString_congr fun k hk => by
      unfold name
      rw [Nat.add_assoc]
      exact h _ (by unfold sizeofEntry FileNameMaxLen at *; omega)
  unfold entry inUse
  rw [hflag, hsector, hname]

theorem table_setInUse {v : Byte} :
    (d.setInUse i v).table k = if k = sizeofEntry * i then v else d.table k := by
  show Function.update d.table (sizeofEntry * i) v k = _
  rw [Function.update_apply]

theorem entry_setInUse_of_ne {v : Byte} (h : j ≠ i) : (d.setInUse i v).entry j = d.entry j := by
  refine entry_congr fun k hk => ?_
  rw [table_setInUse, if_neg]
  unfold sizeofEntry at *
  omega

theorem entry_setInUse_zero : (d.setInUse i 0).entry i = none := by
  refine if_neg ?_
  rw [inUse, table_setInUse, if_pos rfl]
  simp

theorem inUse_eq_true : d.inUse i = true ↔ d.entry i ≠ none := by
  unfold entry
  split <;> simp_all

theorem table_fill : (d.fill i a s).table = putInt (strncpy (d.setInUse i 1).table
    (sizeofEntry * i + 8) a FileNameMaxLen) (sizeofEntry * i + 4) s := rfl

theorem entry_fill_of_ne (h : j ≠ i) : (d.fill i a s).entry j = d.entry j := by
  refine entry_congr fun k hk => ?_
  rw [table_fill, putInt_out (by unfold sizeofEntry at *; omega), strncpy,
    copy_out (by unfold sizeofEntry FileNameMaxLen at *; omega),
    table_setInUse, if_neg (by unfold sizeofEntry at *; omega)]

/-- **An entry that was filled** has the name and the sector. -/
theorem entry_fill (hs : -2 ^ 31 ≤ s ∧ s < 2 ^ 31) :
    (d.fill i a s).entry i = some (cString FileNameMaxLen a, s) := by
  have hflag : (d.fill i a s).inUse i = true := by
    rw [inUse, table_fill, putInt_out (by omega), strncpy, copy_out (by omega), table_setInUse,
      if_pos rfl]
    rfl
  have hname : cString FileNameMaxLen ((d.fill i a s).name i) = cString FileNameMaxLen a := by
    rw [← cString_padded (s := a)]
    refine cString_congr fun k hk => ?_
    show (d.fill i a s).table (sizeofEntry * i + 8 + k) = _
    rw [table_fill, putInt_out (by omega), strncpy, copy_at hk, Nat.zero_add]
  have hsector : (d.fill i a s).sector i = s := intAt_putInt_self hs
  rw [entry, if_pos hflag, hname, hsector]

/-! ### Looking up a name -/

theorem found {p : Nat → Bool} {n : Nat} (h : (List.range n).find? p = some i) :
    i < n ∧ p i = true :=
  ⟨List.mem_range.mp (List.mem_of_find?_eq_some h), List.find?_some h⟩

theorem not_found {p : Nat → Bool} {n : Nat} :
    (List.range n).find? p = none ↔ ∀ i < n, p i = false := by
  rw [List.find?_eq_none]
  simp

theorem matches_iff : (d.inUse i && strncmp (d.name i) a FileNameMaxLen == 0) = true ↔
    ∃ s, d.entry i = some (cString FileNameMaxLen a, s) := by
  rw [Bool.and_eq_true, beq_iff_eq, strncmp_eq_zero, entry]
  split
  · rename_i hin
    simp [hin]
  · rename_i hin
    simp [hin]

theorem findIndex_some (h : d.FindIndex a = some i) :
    i < d.tableSize ∧ d.entry i = some (cString FileNameMaxLen a, d.sector i) := by
  obtain ⟨hlt, hmatch⟩ := found h
  obtain ⟨s, hs⟩ := matches_iff.mp hmatch
  refine ⟨hlt, hs.trans ?_⟩
  unfold entry at hs
  split at hs
  · rw [← (Prod.mk.inj (Option.some.inj hs)).2]
  · cases hs

theorem findIndex_none :
    d.FindIndex a = none ↔ ∀ i < d.tableSize, ∀ s, d.entry i ≠ some (cString FileNameMaxLen a, s) := by
  rw [FindIndex, not_found]
  refine forall₂_congr fun i _ => ?_
  rw [← Bool.not_eq_true, matches_iff, not_exists]

end Directory

end Nachos.FileSys

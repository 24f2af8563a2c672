import Nachos.FileSys.Formatting

/-!
# The file system: what it is for

Files are arrays of bytes, found by their names; users read and overwrite them where their handles
stand. A file keeps the length it was created with. It costs an entry of the directory and the
sectors of its header and its bytes, and creating is refused exactly when these are not left or
the name is taken (`Files.Step`).

The disk, the bitmap and the directory do not show. What a run of the file system answers is what
`Files` answers (`Abstracts`, in the module after this one).
-/

namespace Nachos.FileSys

open Lib Lib.Mem

/-- The bytes from `p` on are replaced. -/
def overwrite (l : List Byte) (p : Nat) (data : List Byte) : List Byte :=
  l.take p ++ data ++ l.drop (p + data.length)

/-- What a file of this length takes of the disk: a header, and sectors for its bytes. -/
def sectorsOf (length : Nat) : Nat := 1 + (length + SectorSize - 1) / SectorSize

/-- The files, what is left of the directory and of the disk, and the handles: a name and a
position. -/
structure Files where
  bytes : List Byte → Option (List Byte)
  entries : Nat
  sectors : Nat
  handles : Nat → Option (List Byte × Nat)

namespace Files

/-- A formatted disk. -/
def empty : Files := ⟨fun _ => none, NumDirEntries, 1019, fun _ => none⟩

def setBytes (a : Files) (n : List Byte) (l : Option (List Byte)) : Files :=
  { a with bytes := Function.update a.bytes n l }

def setHandle (a : Files) (k : Nat) (f : Option (List Byte × Nat)) : Files :=
  { a with handles := Function.update a.handles k f }

theorem setBytes_self (a : Files) (n : List Byte) (l : Option (List Byte)) :
    (a.setBytes n l).bytes n = l := Function.update_self ..

theorem setHandle_self (a : Files) (k : Nat) (f : Option (List Byte × Nat)) :
    (a.setHandle k f).handles k = f := Function.update_self ..

/-- How many bytes a transfer moves. -/
def moved (l : List Byte) (numBytes : Int) (position : Nat) : Nat :=
  min numBytes.toNat (l.length - position)

/-- The bytes that are read. -/
def taken (l : List Byte) (numBytes : Int) (position : Nat) : List Byte :=
  (l.drop position).take numBytes.toNat

/-- The file after a write. -/
def put (l : List Byte) (source : Mem) (numBytes : Int) (position : Nat) : List Byte :=
  overwrite l position ((List.range (moved l numBytes position)).map source)

/-- What may be asked, and the answers. -/
inductive Step (a : Files) : Request × Answer → Files → Prop where
  /-- The bytes of a new file are whatever its sectors hold. -/
  | created {name : Nat → Byte} {size : Int} {l : List Byte}
      (hname : a.bytes (cString FileNameMaxLen name) = none) (hentry : 0 < a.entries)
      (hsectors : sectorsOf size.toNat ≤ a.sectors) (hlength : (l.length : Int) = size) :
      Step a (.create name size, .done true)
        { a.setBytes (cString FileNameMaxLen name) (some l) with
          entries := a.entries - 1
          sectors := a.sectors - sectorsOf size.toNat }
  | refused {name : Nat → Byte} {size : Int}
      (hwhy : a.bytes (cString FileNameMaxLen name) ≠ none ∨ a.entries = 0 ∨
        a.sectors < sectorsOf size.toNat) :
      Step a (.create name size, .done false) a
  | removed {name : Nat → Byte} {l : List Byte}
      (hname : a.bytes (cString FileNameMaxLen name) = some l) :
      Step a (.remove name, .done true)
        { a.setBytes (cString FileNameMaxLen name) none with
          entries := a.entries + 1
          sectors := a.sectors + sectorsOf l.length }
  | notRemoved {name : Nat → Byte} (hname : a.bytes (cString FileNameMaxLen name) = none) :
      Step a (.remove name, .done false) a
  | opened {k : Nat} {name : Nat → Byte} (hname : a.bytes (cString FileNameMaxLen name) ≠ none) :
      Step a (.openAs k name, .done true) (a.setHandle k (some (cString FileNameMaxLen name, 0)))
  | notOpened {k : Nat} {name : Nat → Byte}
      (hname : a.bytes (cString FileNameMaxLen name) = none) :
      Step a (.openAs k name, .done false) a
  | closed {k : Nat} : Step a (.close k, .nothing) (a.setHandle k none)
  | sought {k position p : Nat} {n : List Byte} (hk : a.handles k = some (n, p)) :
      Step a (.seek k position, .nothing) (a.setHandle k (some (n, position)))
  | length {k p : Nat} {n l : List Byte} (hk : a.handles k = some (n, p))
      (hl : a.bytes n = some l) : Step a (.length k, .count l.length) a
  | read {k p : Nat} {n l : List Byte} {numBytes : Int} (hk : a.handles k = some (n, p))
      (hl : a.bytes n = some l) :
      Step a (.read k numBytes, .bytes (taken l numBytes p))
        (a.setHandle k (some (n, p + moved l numBytes p)))
  | write {k p : Nat} {n l : List Byte} {source : Mem} {numBytes : Int}
      (hk : a.handles k = some (n, p)) (hl : a.bytes n = some l) :
      Step a (.write k source numBytes, .count (moved l numBytes p))
        ((a.setBytes n (some (put l source numBytes p))).setHandle k
          (some (n, p + moved l numBytes p)))
  | readAt {k p position : Nat} {n l : List Byte} {numBytes : Int}
      (hk : a.handles k = some (n, p)) (hl : a.bytes n = some l) :
      Step a (.readAt k numBytes position, .bytes (taken l numBytes position)) a
  | writeAt {k p position : Nat} {n l : List Byte} {source : Mem} {numBytes : Int}
      (hk : a.handles k = some (n, p)) (hl : a.bytes n = some l) :
      Step a (.writeAt k source numBytes position, .count (moved l numBytes position))
        (a.setBytes n (some (put l source numBytes position)))
  | mounted : Step a (.mount, .nothing) { a with handles := fun _ => none }

end Files

/-! ### Bytes of a file -/

theorem overwrite_length {l data : List Byte} {p : Nat} (h : p + data.length ≤ l.length) :
    (overwrite l p data).length = l.length := by
  simp only [overwrite, List.length_append, List.length_take, List.length_drop]
  omega

theorem getElem?_overwrite {l data : List Byte} {p : Nat} (h : p + data.length ≤ l.length)
    (i : Nat) : (overwrite l p data)[i]? =
      if p ≤ i ∧ i < p + data.length then data[i - p]? else l[i]? := by
  have htake : (l.take p).length = p := by
    rw [List.length_take]
    omega
  unfold overwrite
  rw [List.append_assoc, List.getElem?_append, List.getElem?_append, htake, List.getElem?_drop]
  by_cases hbefore : i < p
  · rw [if_pos hbefore, if_neg (by omega), List.getElem?_take_of_lt hbefore]
  · rw [if_neg hbefore]
    by_cases hin : i - p < data.length
    · rw [if_pos hin, if_pos (by omega)]
    · rw [if_neg hin, if_neg (by omega)]
      congr 1
      omega

namespace FileHeader

variable {disk disk' : Mem} {hdr : FileHeader} {numBytes : Int} {position : Nat}

theorem count_eq_moved : hdr.count numBytes position = Files.moved (hdr.contents disk) numBytes
    position := by
  rw [count, Files.moved, contents_length]

theorem getElem?_contents (i : Nat) :
    (hdr.contents disk)[i]? = if i < hdr.numBytes.toNat then some (hdr.byte disk i) else none := by
  rw [contents, List.getElem?_map]
  split
  · rename_i hi
    rw [List.getElem?_range hi]
    rfl
  · rename_i hi
    rw [List.getElem?_eq_none (by rw [List.length_range]; omega)]
    rfl

/-- What is read of the array is read of the list. -/
theorem taken_eq {into : Mem} : State.firstBytes (copy into 0 (hdr.byte disk) position
    (hdr.count numBytes position)) (hdr.count numBytes position) =
      Files.taken (hdr.contents disk) numBytes position := by
  apply List.ext_getElem?
  intro i
  unfold State.firstBytes Files.taken
  rw [Int.toNat_natCast, List.getElem?_map, List.getElem?_take, List.getElem?_drop,
    getElem?_contents]
  by_cases hi : i < hdr.count numBytes position
  · rw [List.getElem?_range hi, Option.map_some, copy_in (by omega), Nat.sub_zero]
    unfold count at hi
    rw [if_pos (by omega), if_pos (by omega)]
  · rw [List.getElem?_eq_none (by rw [List.length_range]; omega)]
    unfold count at hi
    split
    · rw [if_neg (by omega)]
      rfl
    · rfl

/-- What is written to the array is written to the list. -/
theorem put_eq {source : Mem} (h : ∀ j : Nat, j < hdr.numBytes → hdr.byte disk' j =
    if position ≤ j ∧ j < position + hdr.count numBytes position then source (j - position)
    else hdr.byte disk j) :
    hdr.contents disk' = Files.put (hdr.contents disk) source numBytes position := by
  apply List.ext_getElem?
  intro i
  have hlength := contents_length hdr disk
  by_cases hnone : hdr.numBytes.toNat < position
  · -- past the end nothing is written
    have hcount : hdr.count numBytes position = 0 := by
      unfold count
      omega
    have hkept : Files.put (hdr.contents disk) source numBytes position = hdr.contents disk := by
      rw [Files.put, ← count_eq_moved, hcount, overwrite, List.take_of_length_le (by omega),
        List.drop_of_length_le (by omega)]
      simp
    rw [hkept, getElem?_contents, getElem?_contents]
    split
    · rw [h i (by omega), if_neg (by omega)]
    · rfl
  · have hcount : hdr.count numBytes position ≤ hdr.numBytes.toNat - position := by
      unfold count
      omega
    rw [Files.put, ← count_eq_moved, getElem?_overwrite (by
      rw [List.length_map, List.length_range, hlength]
      omega), List.length_map, List.length_range, getElem?_contents, getElem?_contents]
    by_cases hi : i < hdr.numBytes.toNat
    · rw [if_pos hi, if_pos hi, h i (by omega)]
      split
      · rw [List.getElem?_map, List.getElem?_range (by omega)]
        rfl
      · rfl
    · rw [if_neg hi, if_neg hi, if_neg (by omega)]

end FileHeader

theorem sectorsOf_eq {size : Int} (h : 0 ≤ size) :
    ((sectorsOf size.toNat : Nat) : Int) = 1 + max 0 (FileHeader.needed size) := by
  rw [(FileHeader.needed_eq size).1 h]
  unfold sectorsOf SectorSize
  omega

end Nachos.FileSys

import Nachos.FileSys.Allocation

/-!
# The file system: what is where on the disk

Each sector in use is in use for one thing (`Use`): the header of the bitmap or of the directory,
a sector of one of these two files, the header of a file in the directory, or a sector of its
data. On a disk in order (`FileSystem.Good`) no sector is used for two of them, and the bitmap
marks exactly the sectors in use.
-/

namespace Nachos.FileSys

open Lib Lib.Mem

/-! ### Sectors -/

/-- A sector is as it was. -/
def Same (disk disk' : Mem) (sector : Nat) : Prop :=
  ∀ a, a / SectorSize = sector → disk' a = disk a

theorem Same.trans {disk disk₁ disk₂ : Mem} {b : Nat} (h : Same disk disk₁ b)
    (h' : Same disk₁ disk₂ b) : Same disk disk₂ b :=
  fun a ha => (h' a ha).trans (h a ha)

/-- The header in a sector. -/
def header (disk : Mem) (sector : Nat) : FileHeader :=
  copy (fun _ => 0) 0 disk (SectorSize * sector) SectorSize

theorem header_congr {disk disk' : Mem} {b : Nat} (h : Same disk disk' b) :
    header disk' b = header disk b := by
  funext k
  unfold header
  by_cases hk : k < SectorSize
  · rw [copy_in (by omega), copy_in (by omega)]
    refine h _ ?_
    unfold SectorSize at *
    omega
  · rw [copy_out (by omega), copy_out (by omega)]

namespace FileHeader

variable {disk disk' : Mem} {hdr hdr' : FileHeader}

theorem FetchFrom_eq {sector : Int} (h : 0 ≤ sector ∧ sector < NumSectors) :
    FetchFrom disk sector = some (header disk sector.toNat) := if_pos h

/-- The two headers are the same where they are stored. -/
def Like (hdr hdr' : FileHeader) : Prop := ∀ k < SectorSize, hdr' k = hdr k

/-- **A header that was written back** is what the sector holds. -/
theorem WriteBack_eq (disk : Mem) (hdr : FileHeader) {sector : Int} (h : 0 ≤ sector ∧ sector < NumSectors) :
    ∃ disk', WriteBack disk hdr sector = some disk' ∧ Like hdr (header disk' sector.toNat) ∧
      ∀ b, b ≠ sector.toNat → Same disk disk' b := by
  refine ⟨_, if_pos h, fun k hk => ?_, fun b hb a ha => copy_out ?_⟩
  · rw [header, copy_in (by omega), copy_in (by omega)]
    congr 1
    omega
  · have := div_of_sector.not.mpr (fun heq => hb (ha.symm.trans heq))
    omega

theorem Like.intAt (h : Like hdr hdr') {a : Nat} (ha : a + 4 ≤ SectorSize) :
    Mem.intAt hdr' a = Mem.intAt hdr a :=
  intAt_congr fun k hk => h _ (by omega)

theorem Like.numBytes (h : Like hdr hdr') : hdr'.numBytes = hdr.numBytes := h.intAt (by decide)

theorem Like.numSectors (h : Like hdr hdr') : hdr'.numSectors = hdr.numSectors :=
  h.intAt (by decide)

theorem Like.dataSectors (h : Like hdr hdr') {i : Nat} (hi : i < NumDirect) :
    hdr'.dataSectors i = hdr.dataSectors i := by
  have hdirect : NumDirect = 30 := rfl
  exact h.intAt (by unfold SectorSize; omega)

theorem Like.valid (h : Like hdr hdr') (hvalid : hdr.Valid) : hdr'.Valid := by
  have hfew := hvalid.few
  refine ⟨?_, ?_, fun i hi => ?_, fun i j hi hj => ?_⟩
  · rw [h.numBytes, h.numSectors]
    exact hvalid.size
  · rw [h.numSectors]
    exact hfew
  · rw [h.numSectors] at hi
    rw [h.dataSectors (by omega)]
    exact hvalid.onDisk i hi
  · rw [h.numSectors] at hi hj
    rw [h.dataSectors (by omega), h.dataSectors (by omega)]
    exact hvalid.distinct i j hi hj

/-- The sector of a place in the file. -/
def sectorAt (hdr : FileHeader) (i : Nat) : Option Nat :=
  if (i : Int) < hdr.numSectors then some (hdr.dataSectors i).toNat else none

theorem Like.sectorAt (h : Like hdr hdr') (hvalid : hdr.Valid) (i : Nat) :
    hdr'.sectorAt i = hdr.sectorAt i := by
  have hfew := hvalid.few
  unfold FileHeader.sectorAt
  rw [h.numSectors]
  split
  · rw [h.dataSectors (by omega)]
  · rfl

theorem has_iff {b : Nat} : hdr.Has b ↔ ∃ i, hdr.sectorAt i = some b := by
  refine exists_congr fun i => ?_
  unfold sectorAt
  split
  · rename_i hi
    simp [hi]
  · rename_i hi
    simp [hi]

theorem Valid.sectorAt_inj (h : hdr.Valid) {i j b : Nat} (hi : hdr.sectorAt i = some b)
    (hj : hdr.sectorAt j = some b) : i = j := by
  unfold sectorAt at hi hj
  split at hi
  · split at hj
    · rename_i hilt hjlt
      refine h.distinct i j hilt hjlt ?_
      have := (h.onDisk i hilt).1
      have := (h.onDisk j hjlt).1
      have := Option.some.inj hi
      have := Option.some.inj hj
      omega
    · cases hj
  · cases hi

theorem Valid.sectorAt_lt (h : hdr.Valid) {i b : Nat} (hi : hdr.sectorAt i = some b) :
    b < NumSectors := by
  unfold sectorAt at hi
  split at hi
  · rename_i hilt
    have := h.onDisk i hilt
    have := Option.some.inj hi
    omega
  · cases hi

/-- The bytes of a file depend on its sectors. -/
theorem Valid.byte_congr (h : hdr.Valid) (hsame : ∀ b, hdr.Has b → Same disk disk' b) {j : Nat}
    (hj : (j : Int) < hdr.numBytes) : hdr.byte disk' j = hdr.byte disk j := by
  have hsize := h.size
  exact hsame _ ⟨_, sector_lt (by omega), rfl⟩ _ (hdr.address_div j)

/-- What is in the file. -/
def contents (hdr : FileHeader) (disk : Mem) : List Byte :=
  (List.range hdr.numBytes.toNat).map (hdr.byte disk)

theorem contents_length (hdr : FileHeader) (disk : Mem) : (hdr.contents disk).length = hdr.numBytes.toNat := by
  rw [contents, List.length_map, List.length_range]

theorem Valid.contents_congr (h : hdr.Valid) (hsame : ∀ b, hdr.Has b → Same disk disk' b) :
    hdr.contents disk' = hdr.contents disk := by
  refine List.map_congr_left fun j hj => h.byte_congr hsame ?_
  have := List.mem_range.mp hj
  omega

end FileHeader

/-! ### What the sectors are used for -/

inductive Use where
  | freeMapHeader
  | directoryHeader
  | freeMapData (i : Nat)
  | directoryData (i : Nat)
  | header (e : Nat)
  | data (e i : Nat)

namespace FileSystem

variable (fs : FileSystem) (disk : Mem)

/-- The bitmap, as its file holds it. -/
def freeMap : WordMap := ⟨NumSectors, fs.freeMapFile.hdr.byte disk⟩

/-- The directory, as its file holds it. -/
def directory : Directory := ⟨NumDirEntries, fs.directoryFile.hdr.byte disk⟩

/-- A file: its name and the sector of its header. -/
def file (e : Nat) : Option (List Byte × Nat) :=
  if e < NumDirEntries then ((fs.directory disk).entry e).map fun f => (f.1, f.2.toNat) else none

/-- The sector that is used for this. -/
def place : Use → Option Nat
  | .freeMapHeader => some FreeMapSector
  | .directoryHeader => some DirectorySector
  | .freeMapData i => fs.freeMapFile.hdr.sectorAt i
  | .directoryData i => fs.directoryFile.hdr.sectorAt i
  | .header e => (fs.file disk e).map Prod.snd
  | .data e i => (fs.file disk e).bind fun f => (FileSys.header disk f.2).sectorAt i

/-- **The disk is in order.** -/
structure Good : Prop where
  freeMapHeader : fs.freeMapFile = ⟨header disk FreeMapSector, 0⟩
  directoryHeader : fs.directoryFile = ⟨header disk DirectorySector, 0⟩
  freeMapFile : fs.freeMapFile.hdr.Valid
  directoryFile : fs.directoryFile.hdr.Valid
  freeMapSize : fs.freeMapFile.hdr.numBytes = FreeMapFileSize
  directorySize : fs.directoryFile.hdr.numBytes = DirectoryFileSize
  sectors : ∀ e n s, e < NumDirEntries → (fs.directory disk).entry e = some (n, s) →
    0 ≤ s ∧ s < NumSectors
  files : ∀ e n b, fs.file disk e = some (n, b) → (header disk b).Valid
  taken : ∀ e n b, fs.file disk e = some (n, b) →
    (header disk b).numSectors = FileHeader.needed (header disk b).numBytes
  names : ∀ e e' n b b', fs.file disk e = some (n, b) → fs.file disk e' = some (n, b') → e = e'
  placed : ∀ u v b, fs.place disk u = some b → fs.place disk v = some b → u = v
  marked : ∀ b < NumSectors, (fs.freeMap disk).bit b = true ↔ ∃ u, fs.place disk u = some b

end FileSystem

end Nachos.FileSys

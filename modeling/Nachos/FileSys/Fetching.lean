import Nachos.FileSys.Layout

/-!
# The file system: the bitmap and the directory in their files

The two are fetched whole and written back whole, so what an operation has in memory is what is on
the disk.
-/

namespace Nachos.FileSys

open Lib Lib.Mem

theorem WordMap.bit_congr {m m' : WordMap} {b : Nat}
    (h : ∀ k < 4, m'.map (4 * (b / BitsInWord) + k) = m.map (4 * (b / BitsInWord) + k)) :
    m'.bit b = m.bit b := by
  unfold bit word
  rw [wordAt_congr h]

theorem Directory.tableSize_new (junk : Mem) (size : Nat) : (new junk size).tableSize = size := by
  have hfold : ∀ (l : List Nat) (d : Directory),
      (l.foldl (fun d i => d.setInUse i 0) d).tableSize = d.tableSize := by
    intro l
    induction l with
    | nil => exact fun _ => rfl
    | cons i l ih => exact fun d => ih (d.setInUse i 0)
  exact hfold _ _

/-- A new directory is empty. -/
theorem Directory.entry_new (junk : Mem) (size : Nat) {i : Nat} (hi : i < size) :
    (new junk size).entry i = none := by
  have hfold : ∀ (l : List Nat) (d : Directory), (i ∈ l ∨ d.entry i = none) →
      (l.foldl (fun d i => d.setInUse i 0) d).entry i = none := by
    intro l
    induction l with
    | nil => exact fun d h => h.resolve_left (by simp)
    | cons j l ih =>
      intro d h
      refine ih _ ?_
      by_cases hij : i = j
      · rw [← hij]
        exact .inr entry_setInUse_zero
      · rw [entry_setInUse_of_ne hij]
        exact h.imp (fun hmem => (List.mem_cons.mp hmem).resolve_left hij) id
  exact hfold _ _ (.inl (List.mem_range.mpr hi))

namespace FileSystem

variable {fs : FileSystem} {disk : Mem}

/-! ### Fetching -/

theorem Good.fetchDirectory (h : fs.Good disk) (junk : Mem) :
    ∃ d, fs.fetchDirectory disk junk = some d ∧ d.tableSize = NumDirEntries ∧
      ∀ e < NumDirEntries, d.entry e = (fs.directory disk).entry e := by
  refine ⟨{ Directory.new junk NumDirEntries with
    table := copy (Directory.new junk NumDirEntries).table 0 (fs.directoryFile.hdr.byte disk) 0
      DirectoryFileSize },
    ?_, Directory.tableSize_new _ _, fun e he => Directory.entry_congr fun k hk => ?_⟩
  · unfold FileSystem.fetchDirectory Directory.FetchFrom
    rw [Directory.tableSize_new, show NumDirEntries * sizeofEntry = DirectoryFileSize from rfl,
      OpenFile.ReadAt_whole _ _ _ h.directoryFile h.directorySize]
    rw [Option.map_some]
    congr 2
  · refine (copy_in ⟨Nat.zero_le _, ?_⟩).trans (by rw [Nat.zero_add, Nat.sub_zero]; rfl)
    unfold DirectoryFileSize sizeofEntry NumDirEntries at *
    omega

theorem numWords_eq {m : WordMap} (hbits : m.numBits = NumSectors) :
    m.numWords * 4 = (FreeMapFileSize : Nat) := by
  unfold WordMap.numWords
  rw [hbits]
  decide

theorem word_lt {b k : Nat} (hb : b < NumSectors) (hk : k < 4) :
    4 * (b / BitsInWord) + k < FreeMapFileSize := by
  have hnum : NumSectors = 1024 := rfl
  have hsize : FreeMapFileSize = 128 := rfl
  unfold BitsInWord
  omega

theorem Good.fetchFreeMap (h : fs.Good disk) (junk : Mem) :
    ∃ m, fs.fetchFreeMap disk junk = some m ∧ m.numBits = NumSectors ∧
      ∀ b < NumSectors, m.bit b = (fs.freeMap disk).bit b := by
  obtain ⟨m, hm, hbits, -⟩ := WordMap.new_eq junk NumSectors
  refine ⟨{ m with map := copy m.map 0 (fs.freeMapFile.hdr.byte disk) 0 FreeMapFileSize }, ?_,
    hbits, fun b hb => WordMap.bit_congr fun k hk => ?_⟩
  · unfold FileSystem.fetchFreeMap WordMap.FetchFrom
    rw [hm, Option.bind_some, numWords_eq hbits,
      OpenFile.ReadAt_whole _ _ _ h.freeMapFile h.freeMapSize]
    rfl
  · have hlt := word_lt hb hk
    exact (copy_in ⟨Nat.zero_le _, by omega⟩).trans (by rw [Nat.zero_add, Nat.sub_zero]; rfl)

/-! ### Writing back -/

/-- The files of the bitmap and the directory have their sizes. -/
structure Sized (fs : FileSystem) : Prop where
  freeMapFile : fs.freeMapFile.hdr.Valid
  directoryFile : fs.directoryFile.hdr.Valid
  freeMapSize : fs.freeMapFile.hdr.numBytes = FreeMapFileSize
  directorySize : fs.directoryFile.hdr.numBytes = DirectoryFileSize

theorem Good.sized (h : fs.Good disk) : fs.Sized :=
  ⟨h.freeMapFile, h.directoryFile, h.freeMapSize, h.directorySize⟩

theorem Sized.directory_congr (h : fs.Sized) {disk' : Mem} {e : Nat}
    (hsame : ∀ b, fs.directoryFile.hdr.Has b → Same disk disk' b) (he : e < NumDirEntries) :
    (fs.directory disk').entry e = (fs.directory disk).entry e := by
  refine Directory.entry_congr fun k hk => h.directoryFile.byte_congr hsame ?_
  rw [h.directorySize]
  unfold DirectoryFileSize sizeofEntry NumDirEntries at *
  omega

theorem Sized.freeMap_congr (h : fs.Sized) {disk' : Mem} {b : Nat}
    (hsame : ∀ b, fs.freeMapFile.hdr.Has b → Same disk disk' b) (hb : b < NumSectors) :
    (fs.freeMap disk').bit b = (fs.freeMap disk).bit b := by
  refine WordMap.bit_congr fun k hk => h.freeMapFile.byte_congr hsame ?_
  have := word_lt hb hk
  rw [h.freeMapSize]
  omega

theorem Sized.writeDirectory (h : fs.Sized) (disk junk : Mem) {d : Directory}
    (hsize : d.tableSize = NumDirEntries) :
    ∃ disk', d.WriteBack disk junk fs.directoryFile = some disk' ∧
      (∀ e < NumDirEntries, (fs.directory disk').entry e = d.entry e) ∧
      ∀ b, ¬ fs.directoryFile.hdr.Has b → Same disk disk' b := by
  obtain ⟨disk', hdisk', hwritten, hframe⟩ :=
    OpenFile.WriteAt_whole disk junk d.table h.directoryFile h.directorySize
  refine ⟨disk', ?_, fun e he => Directory.entry_congr fun k hk => hwritten _ ?_,
    fun b hb a ha => hframe a (by rw [ha]; exact hb)⟩
  · rw [Directory.WriteBack, hsize, show NumDirEntries * sizeofEntry = DirectoryFileSize from rfl,
      hdisk']
    rfl
  · unfold DirectoryFileSize sizeofEntry NumDirEntries at *
    omega

theorem Sized.writeFreeMap (h : fs.Sized) (disk junk : Mem) {m : WordMap}
    (hbits : m.numBits = NumSectors) :
    ∃ disk', m.WriteBack disk junk fs.freeMapFile = some disk' ∧
      (∀ b < NumSectors, (fs.freeMap disk').bit b = m.bit b) ∧
      ∀ b, ¬ fs.freeMapFile.hdr.Has b → Same disk disk' b := by
  obtain ⟨disk', hdisk', hwritten, hframe⟩ :=
    OpenFile.WriteAt_whole disk junk m.map h.freeMapFile h.freeMapSize
  refine ⟨disk', ?_, fun b hb => WordMap.bit_congr fun k hk => hwritten _ (word_lt hb hk),
    fun b hb a ha => hframe a (by rw [ha]; exact hb)⟩
  rw [WordMap.WriteBack, numWords_eq hbits, hdisk']
  rfl

end FileSystem

end Nachos.FileSys

import Nachos.FileSys.Operations

/-!
# The file system: formatting the disk

Formatting allocates the files of the bitmap and the directory from a clear bitmap, and writes
their headers first, so that the two files can be opened to write the bitmap and the directory
into them. The disk it leaves is in order and holds no file.
-/

namespace Nachos.FileSys

open Lib Lib.Mem

theorem WordMap.NumClear_of_clear {m : WordMap} (h : ∀ i < m.numBits, m.bit i = false) :
    m.NumClear = m.numBits := by
  have hall : m.clearBits = Finset.range m.numBits := by
    ext i
    rw [mem_clearBits, Finset.mem_range]
    exact ⟨And.left, fun hi => ⟨hi, h i hi⟩⟩
  rw [NumClear_eq, hall, Finset.card_range]

namespace FileSystem

/-- What formatting has in memory before it writes: the two headers and the bitmap. -/
structure Formatted (mapHdr dirHdr : FileHeader) (m : WordMap) : Prop where
  mapValid : mapHdr.Valid
  dirValid : dirHdr.Valid
  mapSize : mapHdr.numBytes = FreeMapFileSize
  dirSize : dirHdr.numBytes = DirectoryFileSize
  mapData : ∀ b, mapHdr.Has b → b ≠ FreeMapSector ∧ b ≠ DirectorySector
  dirData : ∀ b, dirHdr.Has b → b ≠ FreeMapSector ∧ b ≠ DirectorySector ∧ ¬ mapHdr.Has b
  numBits : m.numBits = NumSectors
  bit : ∀ b, b < NumSectors → (m.bit b = true ↔
    b = FreeMapSector ∨ b = DirectorySector ∨ mapHdr.Has b ∨ dirHdr.Has b)
  left : m.NumClear = 1019

theorem has_of_allocated {hdr : FileHeader} {m m' : WordMap} {size : Int}
    (h : FileHeader.Allocated m size (FileHeader.needed size).toNat hdr m') {b : Nat} :
    hdr.Has b ↔ ∃ k < (FileHeader.needed size).toNat, (hdr.dataSectors k).toNat = b := by
  unfold FileHeader.Has
  rw [h.numSectors]
  exact exists_congr fun k => and_congr_left fun _ => by omega

theorem clear_of_allocated {hdr : FileHeader} {m m' : WordMap} {size : Int}
    (h : FileHeader.Allocated m size (FileHeader.needed size).toNat hdr m') {b : Nat}
    (hb : hdr.Has b) : b < m.numBits ∧ m.bit b = false := by
  obtain ⟨k, hk, rfl⟩ := (has_of_allocated h).mp hb
  obtain ⟨hpos, hlt, hbit⟩ := h.clear k hk
  exact ⟨by omega, hbit⟩

theorem marked_of_allocated {hdr : FileHeader} {m m' : WordMap} {size : Int}
    (h : FileHeader.Allocated m size (FileHeader.needed size).toNat hdr m') (b : Nat) :
    m'.bit b = true ↔ m.bit b = true ∨ hdr.Has b := by
  rw [h.marked b, has_of_allocated h]

/-- `allocated` takes clear sectors where there are enough. -/
theorem allocated_eq (junk : Mem) {m : WordMap} (size : Nat) (hfits : FileHeader.Fits size)
    (hbits : m.numBits = NumSectors) (henough : FileHeader.needed size ≤ m.NumClear) :
    ∃ hdr m', allocated junk m size = some (hdr, m') ∧ hdr.Valid ∧
      FileHeader.Allocated m size (FileHeader.needed size).toNat hdr m' := by
  obtain ⟨hdr, m', hallocate, hvalid, hall⟩ :=
    FileHeader.Allocate_eq junk hfits (Nat.le_of_eq hbits) henough
  refine ⟨hdr, m', ?_, hvalid, hall⟩
  rw [allocated, hallocate]
  rfl

/-- **The two files are allocated** from the clear bitmap. -/
theorem formatted (junk : Mem) :
    ∃ m₀ m₁ m₂ mapHdr m₃ dirHdr m₄, WordMap.new junk NumSectors = some m₀ ∧
      m₀.Mark FreeMapSector = some m₁ ∧ m₁.Mark DirectorySector = some m₂ ∧
      allocated junk m₂ FreeMapFileSize = some (mapHdr, m₃) ∧
      allocated junk m₃ DirectoryFileSize = some (dirHdr, m₄) ∧ Formatted mapHdr dirHdr m₄ := by
  have hnum : NumSectors = 1024 := rfl
  have hzero : FreeMapSector = 0 := rfl
  have hone : DirectorySector = 1 := rfl
  obtain ⟨m₀, hm₀, hbits, hclear⟩ := WordMap.new_eq junk NumSectors
  have hall := WordMap.NumClear_of_clear fun i hi => hclear i (hbits ▸ hi)
  have hmark₀ := WordMap.NumClear_mark (m := m₀) (i := FreeMapSector) (by omega)
    (hclear _ (by decide))
  have hbit₁ : ∀ b, (m₀.mark FreeMapSector).bit b = if b = FreeMapSector then true else m₀.bit b :=
    fun b => WordMap.bit_mark m₀ _ b
  have hmark₁ := WordMap.NumClear_mark (m := m₀.mark FreeMapSector) (i := DirectorySector)
    (by rw [WordMap.numBits_mark]; omega) (by
      rw [hbit₁, if_neg (by decide)]
      exact hclear _ (by decide))
  obtain ⟨m₂, hm₂⟩ : ∃ m₂, m₂ = (m₀.mark FreeMapSector).mark DirectorySector := ⟨_, rfl⟩
  rw [← hm₂] at hmark₁
  have hbits₂ : m₂.numBits = NumSectors := by rw [hm₂]; exact hbits
  have hbit₂ : ∀ b < NumSectors, m₂.bit b = true ↔ b = FreeMapSector ∨ b = DirectorySector := by
    intro b hb
    rw [hm₂, WordMap.bit_mark, hbit₁, hclear b hb]
    by_cases h0 : b = FreeMapSector
    · simp [h0]
    · simp [h0]
  have hneeded : FileHeader.needed (FreeMapFileSize : Nat) = 1 := rfl
  have hneeded' : FileHeader.needed (DirectoryFileSize : Nat) = 2 := rfl
  obtain ⟨mapHdr, m₃, hmap, hmapValid, hmapAll⟩ := allocated_eq junk FreeMapFileSize
    ⟨by decide, by decide⟩ hbits₂ (by omega)
  have hleft₃ := hmapAll.left
  obtain ⟨dirHdr, m₄, hdir, hdirValid, hdirAll⟩ := allocated_eq junk DirectoryFileSize
    ⟨by decide, by decide⟩ (hmapAll.numBits.trans hbits₂) (by omega)
  have hleft₄ := hdirAll.left
  refine ⟨m₀, _, m₂, mapHdr, m₃, dirHdr, m₄, hm₀, if_pos ⟨by decide, by omega⟩, ?_, hmap, hdir,
    hmapValid, hdirValid, hmapAll.numBytes, hdirAll.numBytes, fun b hb => ?_, fun b hb => ?_,
    hdirAll.numBits.trans (hmapAll.numBits.trans hbits₂), fun b hb => ?_, by omega⟩
  · rw [hm₂]
    exact if_pos ⟨by decide, by rw [WordMap.numBits_mark]; omega⟩
  · obtain ⟨hlt, hbit⟩ := clear_of_allocated hmapAll hb
    have hnot := (hbit₂ b (hbits₂ ▸ hlt)).not.mp (by rw [hbit]; simp)
    exact not_or.mp hnot
  · obtain ⟨hlt, hbit⟩ := clear_of_allocated hdirAll hb
    have hnot := (marked_of_allocated hmapAll b).not.mp (by rw [hbit]; simp)
    rw [hbit₂ b (hbits₂ ▸ hmapAll.numBits ▸ hlt)] at hnot
    exact ⟨fun h0 => hnot (.inl (.inl h0)), fun h1 => hnot (.inl (.inr h1)),
      fun hhas => hnot (.inr hhas)⟩
  · rw [marked_of_allocated hdirAll, marked_of_allocated hmapAll, hbit₂ b hb, or_assoc, or_assoc]

/-- What the disk is after the headers, the bitmap and the directory were written to it. -/
structure Laid (fs : FileSystem) (disk : Mem) (mapHdr dirHdr : FileHeader) (m : WordMap) :
    Prop where
  freeMapHeader : fs.freeMapFile = ⟨header disk FreeMapSector, 0⟩
  directoryHeader : fs.directoryFile = ⟨header disk DirectorySector, 0⟩
  mapLike : mapHdr.Like fs.freeMapFile.hdr
  dirLike : dirHdr.Like fs.directoryFile.hdr
  freeMap : ∀ b < NumSectors, (fs.freeMap disk).bit b = m.bit b
  directory : ∀ e < NumDirEntries, (fs.directory disk).entry e = none

section Laid

variable {fs : FileSystem} {disk : Mem} {mapHdr dirHdr : FileHeader} {m : WordMap}
  (hf : Formatted mapHdr dirHdr m) (hl : fs.Laid disk mapHdr dirHdr m)

include hl

theorem Laid.file_eq (e : Nat) : fs.file disk e = none := by
  unfold FileSystem.file
  split
  · rename_i he
    rw [hl.directory e he]
    rfl
  · rfl

include hf

theorem Laid.freeMapData {i b : Nat} (hi : fs.place disk (.freeMapData i) = some b) :
    mapHdr.sectorAt i = some b :=
  (hl.mapLike.sectorAt hf.mapValid i).symm.trans hi

theorem Laid.directoryData {i b : Nat} (hi : fs.place disk (.directoryData i) = some b) :
    dirHdr.sectorAt i = some b :=
  (hl.dirLike.sectorAt hf.dirValid i).symm.trans hi

/-- What is used, in the order in which it was taken. -/
theorem Laid.place_cases {u : Use} {b : Nat} (hu : fs.place disk u = some b) :
    (u = .freeMapHeader ∧ b = FreeMapSector) ∨ (u = .directoryHeader ∧ b = DirectorySector) ∨
      (∃ i, u = .freeMapData i ∧ mapHdr.sectorAt i = some b) ∨
      ∃ i, u = .directoryData i ∧ dirHdr.sectorAt i = some b := by
  cases u with
  | freeMapHeader =>
    cases hu
    exact .inl ⟨rfl, rfl⟩
  | directoryHeader =>
    cases hu
    exact .inr (.inl ⟨rfl, rfl⟩)
  | freeMapData i => exact .inr (.inr (.inl ⟨i, rfl, hl.freeMapData hf hu⟩))
  | directoryData i => exact .inr (.inr (.inr ⟨i, rfl, hl.directoryData hf hu⟩))
  | header e =>
    rw [place_unused (hl.file_eq e) rfl] at hu
    cases hu
  | data e i =>
    rw [place_unused (hl.file_eq e) rfl] at hu
    cases hu

/-- No sector was taken twice. -/
theorem Laid.placed {u v : Use} {b : Nat} (hu : fs.place disk u = some b)
    (hv : fs.place disk v = some b) : u = v := by
  have hmap : ∀ {i}, mapHdr.sectorAt i = some b → b ≠ FreeMapSector ∧ b ≠ DirectorySector :=
    fun hi => hf.mapData b (FileHeader.has_iff.mpr ⟨_, hi⟩)
  have hdir : ∀ {i}, dirHdr.sectorAt i = some b →
      b ≠ FreeMapSector ∧ b ≠ DirectorySector ∧ ∀ j, mapHdr.sectorAt j ≠ some b := fun hi =>
    have hnot := hf.dirData b (FileHeader.has_iff.mpr ⟨_, hi⟩)
    ⟨hnot.1, hnot.2.1, fun j hj => hnot.2.2 (FileHeader.has_iff.mpr ⟨j, hj⟩)⟩
  have hne : FreeMapSector ≠ DirectorySector := by decide
  rcases hl.place_cases hf hu with ⟨rfl, hb⟩ | ⟨rfl, hb⟩ | ⟨i, rfl, hi⟩ | ⟨i, rfl, hi⟩ <;>
    rcases hl.place_cases hf hv with ⟨rfl, hb'⟩ | ⟨rfl, hb'⟩ | ⟨j, rfl, hj⟩ | ⟨j, rfl, hj⟩
  · rfl
  · exact absurd (hb.symm.trans hb') hne
  · exact absurd hb (hmap hj).1
  · exact absurd hb (hdir hj).1
  · exact absurd (hb'.symm.trans hb) hne
  · rfl
  · exact absurd hb (hmap hj).2
  · exact absurd hb (hdir hj).2.1
  · exact absurd hb' (hmap hi).1
  · exact absurd hb' (hmap hi).2
  · rw [hf.mapValid.sectorAt_inj hi hj]
  · exact absurd hi ((hdir hj).2.2 i)
  · exact absurd hb' (hdir hi).1
  · exact absurd hb' (hdir hi).2.1
  · exact absurd hj ((hdir hi).2.2 j)
  · rw [hf.dirValid.sectorAt_inj hi hj]

/-- **The disk is in order.** -/
theorem Laid.good : fs.Good disk := by
  refine ⟨hl.freeMapHeader, hl.directoryHeader, hl.mapLike.valid hf.mapValid,
    hl.dirLike.valid hf.dirValid, hl.mapLike.numBytes.trans hf.mapSize,
    hl.dirLike.numBytes.trans hf.dirSize, fun e n s he hentry => ?_, fun e n b hfile => ?_,
    fun e n b hfile => ?_, fun e e' n b b' hfile => ?_, fun u v b => hl.placed hf, fun b hb => ?_⟩
  · rw [hl.directory e he] at hentry
    cases hentry
  · cases (hl.file_eq e).symm.trans hfile
  · cases (hl.file_eq e).symm.trans hfile
  · cases (hl.file_eq e).symm.trans hfile
  · rw [hl.freeMap b hb, hf.bit b hb]
    constructor
    · rintro (rfl | rfl | hhas | hhas)
      · exact ⟨.freeMapHeader, rfl⟩
      · exact ⟨.directoryHeader, rfl⟩
      · obtain ⟨i, hi⟩ := FileHeader.has_iff.mp hhas
        exact ⟨.freeMapData i, (hl.mapLike.sectorAt hf.mapValid i).trans hi⟩
      · obtain ⟨i, hi⟩ := FileHeader.has_iff.mp hhas
        exact ⟨.directoryData i, (hl.dirLike.sectorAt hf.dirValid i).trans hi⟩
    · rintro ⟨u, hu⟩
      rcases hl.place_cases hf hu with ⟨-, hb⟩ | ⟨-, hb⟩ | ⟨i, -, hi⟩ | ⟨i, -, hi⟩
      · exact .inl hb
      · exact .inr (.inl hb)
      · exact .inr (.inr (.inl (FileHeader.has_iff.mpr ⟨i, hi⟩)))
      · exact .inr (.inr (.inr (FileHeader.has_iff.mpr ⟨i, hi⟩)))

end Laid

theorem mount_eq (disk : Mem) :
    mount disk = some ⟨⟨header disk FreeMapSector, 0⟩, ⟨header disk DirectorySector, 0⟩⟩ := rfl

/-- **Formatting** leaves a disk in order, with no file and the other sectors clear. -/
theorem format_good (disk junk : Mem) :
    ∃ fs disk', format disk junk = some (fs, disk') ∧ fs.Good disk' ∧
      (∀ e, fs.file disk' e = none) ∧ (fs.freeMap disk').NumClear = 1019 := by
  obtain ⟨m₀, m₁, m₂, mapHdr, m₃, dirHdr, m, hm₀, hm₁, hm₂, hmap, hdir, hf⟩ := formatted junk
  obtain ⟨disk₁, hdisk₁, hmapLike, hother₁⟩ := FileHeader.WriteBack_eq disk mapHdr
    (show (0 : Int) ≤ FreeMapSector ∧ (FreeMapSector : Int) < NumSectors by decide)
  obtain ⟨disk₂, hdisk₂, hdirLike, hother₂⟩ := FileHeader.WriteBack_eq disk₁ dirHdr
    (show (0 : Int) ≤ DirectorySector ∧ (DirectorySector : Int) < NumSectors by decide)
  obtain ⟨fs, hfs⟩ : ∃ fs : FileSystem,
      fs = ⟨⟨header disk₂ FreeMapSector, 0⟩, ⟨header disk₂ DirectorySector, 0⟩⟩ := ⟨_, rfl⟩
  have hmapHdr : mapHdr.Like fs.freeMapFile.hdr := by
    rw [hfs]
    show mapHdr.Like (header disk₂ FreeMapSector)
    rw [header_congr (hother₂ FreeMapSector (by decide))]
    exact hmapLike
  have hdirHdr : dirHdr.Like fs.directoryFile.hdr := by
    rw [hfs]
    exact hdirLike
  have hsized : fs.Sized := ⟨hmapHdr.valid hf.mapValid, hdirHdr.valid hf.dirValid,
    hmapHdr.numBytes.trans hf.mapSize, hdirHdr.numBytes.trans hf.dirSize⟩
  have hmapHas : ∀ {b}, fs.freeMapFile.hdr.Has b → mapHdr.Has b := fun hb => by
    obtain ⟨i, hi⟩ := FileHeader.has_iff.mp hb
    exact FileHeader.has_iff.mpr ⟨i, (hmapHdr.sectorAt hf.mapValid i).symm.trans hi⟩
  have hdirHas : ∀ {b}, fs.directoryFile.hdr.Has b → dirHdr.Has b := fun hb => by
    obtain ⟨i, hi⟩ := FileHeader.has_iff.mp hb
    exact FileHeader.has_iff.mpr ⟨i, (hdirHdr.sectorAt hf.dirValid i).symm.trans hi⟩
  obtain ⟨disk₃, hdisk₃, hfreeMap, hmapOnly⟩ := hsized.writeFreeMap disk₂ junk hf.numBits
  obtain ⟨disk₄, hdisk₄, hdirectory, hdirOnly⟩ := hsized.writeDirectory disk₃ junk
    (Directory.tableSize_new junk NumDirEntries)
  -- the sectors of the headers are not written again
  have hkept : ∀ b, ¬ mapHdr.Has b → ¬ dirHdr.Has b → Same disk₂ disk₄ b := fun b hbm hbd =>
    (hmapOnly b fun hhas => hbm (hmapHas hhas)).trans (hdirOnly b fun hhas => hbd (hdirHas hhas))
  have hsame₀ := hkept FreeMapSector (fun hhas => (hf.mapData _ hhas).1 rfl)
    fun hhas => (hf.dirData _ hhas).1 rfl
  have hsame₁ := hkept DirectorySector (fun hhas => (hf.mapData _ hhas).2 rfl)
    fun hhas => (hf.dirData _ hhas).2.1 rfl
  have hlast : ∀ b < NumSectors, (fs.freeMap disk₄).bit b = m.bit b := fun b hb => by
    rw [hsized.freeMap_congr (fun k hk => hdirOnly k fun hhas => ?_) hb, hfreeMap b hb]
    exact (hf.dirData k (hdirHas hhas)).2.2 (hmapHas hk)
  have hl : fs.Laid disk₄ mapHdr dirHdr m := by
    refine ⟨?_, ?_, hmapHdr, hdirHdr, hlast, fun e he => ?_⟩
    · rw [hfs, header_congr hsame₀]
    · rw [hfs, header_congr hsame₁]
    · rw [hdirectory e he]
      exact Directory.entry_new junk NumDirEntries he
  refine ⟨fs, disk₄, ?_, hl.good hf, hl.file_eq, ?_⟩
  · have hmount : mount disk₂ = some fs := by
      rw [mount_eq, hfs]
    unfold format
    simp only [hm₀, hm₁, hm₂, hmap, hdir, hdisk₁, hdisk₂, hmount, hdisk₃, hdisk₄,
      Option.bind_eq_bind, Option.bind_some]
    rfl
  · have hsame : (fs.freeMap disk₄).NumClear = m.NumClear :=
      WordMap.NumClear_congr hf.numBits.symm fun b hb => hlast b (hf.numBits ▸ hb)
    rw [hsame, hf.left]

end FileSystem

end Nachos.FileSys

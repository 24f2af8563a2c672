import Nachos.FileSys.Entries

/-!
# The file system: what the operations do

On a disk in order no assertion of `Create`, `Open` or `Remove` fails. Creating adds an entry or
is refused for one of three reasons (`Refused`); removing takes the entry away if there is one.
-/

namespace Nachos.FileSys

open Lib Lib.Mem

namespace FileSystem

variable {fs : FileSystem} {disk disk' : Mem} {e e₀ s : Nat} {n : List Byte}

/-- The characters of a name that count. -/
abbrev key (name : Nat → Byte) : List Byte := cString FileNameMaxLen name

/-- The entries of the directory that are not in use. -/
def unused (fs : FileSystem) (disk : Mem) : Finset Nat :=
  (Finset.range NumDirEntries).filter fun e => fs.file disk e = none

theorem mem_unused : e ∈ fs.unused disk ↔ e < NumDirEntries ∧ fs.file disk e = none := by
  rw [unused, Finset.mem_filter, Finset.mem_range]

theorem Added.unused_eq (ha : fs.Added disk disk' e₀ n s) :
    fs.unused disk' = (fs.unused disk).erase e₀ := by
  ext e
  rw [mem_unused, Finset.mem_erase, mem_unused]
  by_cases he : e = e₀
  · subst he
    simp [ha.file_self]
  · simp [ha.file_of_ne he, he]

theorem Removed.unused_eq (hr : fs.Removed disk disk' e₀ n s) :
    fs.unused disk' = insert e₀ (fs.unused disk) := by
  ext e
  rw [mem_unused, Finset.mem_insert, mem_unused]
  by_cases he : e = e₀
  · subst he
    simp [hr.file_self, (file_some hr.file).1]
  · simp [hr.file_of_ne he, he]

/-! ### Looking up a name -/

/-- A directory in memory has the entries of the one on the disk. -/
structure Fetched (fs : FileSystem) (disk : Mem) (d : Directory) : Prop where
  size : d.tableSize = NumDirEntries
  entry : ∀ e < NumDirEntries, d.entry e = (fs.directory disk).entry e

theorem Good.find (h : fs.Good disk) {d : Directory} (hd : fs.Fetched disk d)
    (name : Nat → Byte) :
    (∃ e b : Nat, d.FindIndex name = some e ∧ d.Find name = (b : Int) ∧
      fs.file disk e = some (key name, b)) ∨
    (d.FindIndex name = none ∧ d.Find name = -1 ∧
      ∀ e b, fs.file disk e ≠ some (key name, b)) := by
  cases hfind : d.FindIndex name with
  | some e =>
    obtain ⟨hlt, hentry⟩ := Directory.findIndex_some hfind
    rw [hd.size] at hlt
    rw [hd.entry e hlt] at hentry
    have hsector := h.sectors e _ _ hlt hentry
    refine .inl ⟨e, (d.sector e).toNat, rfl, ?_, file_eq hlt hentry⟩
    rw [Directory.Find, hfind]
    show d.sector e = _
    omega
  | none =>
    refine .inr ⟨rfl, by rw [Directory.Find, hfind], fun e b hfile => ?_⟩
    obtain ⟨hlt, s, hentry, -⟩ := file_some hfile
    rw [← hd.entry e hlt] at hentry
    exact Directory.findIndex_none.mp hfind e (by rw [hd.size]; exact hlt) s hentry

/-! ### Create -/

/-- Why a file is not created. -/
def Refused (fs : FileSystem) (disk : Mem) (name : Nat → Byte) (initialSize : Int) : Prop :=
  (∃ e b, fs.file disk e = some (key name, b)) ∨ fs.unused disk = ∅ ∨
    (fs.freeMap disk).NumClear < 1 + max 0 (FileHeader.needed initialSize)

/-- What is written when a file is created: the header in `s`, the directory, the bitmap. -/
structure Writes (fs : FileSystem) (disk disk₁ disk₂ disk₃ : Mem) (hdr : FileHeader) (d : Directory)
    (m : WordMap) (s : Nat) : Prop where
  header : hdr.Like (FileSys.header disk₁ s)
  headerOnly : ∀ b, b ≠ s → Same disk disk₁ b
  directory : ∀ e < NumDirEntries, (fs.directory disk₂).entry e = d.entry e
  directoryOnly : ∀ b, ¬ fs.directoryFile.hdr.Has b → Same disk₁ disk₂ b
  freeMap : ∀ b < NumSectors, (fs.freeMap disk₃).bit b = m.bit b
  freeMapOnly : ∀ b, ¬ fs.freeMapFile.hdr.Has b → Same disk₂ disk₃ b

section Writes

variable {disk₁ disk₂ disk₃ : Mem} {hdr : FileHeader} {d : Directory} {m : WordMap}

theorem Writes.kept (hw : fs.Writes disk disk₁ disk₂ disk₃ hdr d m s) :
    fs.Kept disk disk₃ s := fun b hb hmap hdir =>
  ((hw.headerOnly b hb).trans (hw.directoryOnly b hdir)).trans (hw.freeMapOnly b hmap)

variable (h : fs.Good disk) (hw : fs.Writes disk disk₁ disk₂ disk₃ hdr d m s)

include h hw

/-- The bitmap is written last, and not over the directory. -/
theorem Writes.entry (he : e < NumDirEntries) : (fs.directory disk₃).entry e = d.entry e := by
  rw [h.sized.directory_congr (fun b hb => hw.freeMapOnly b ?_) he]
  · exact hw.directory e he
  · obtain ⟨i, hi⟩ := FileHeader.has_iff.mp hb
    exact h.not_freeMapFile (u := .directoryData i) hi (by simp)

/-- Where nothing was before, the header stays as it is written. -/
theorem Writes.header_eq (hclear : (fs.freeMap disk).bit s = false) :
    FileSys.header disk₃ s = FileSys.header disk₁ s := by
  have hnot : ∀ u, fs.place disk u ≠ some s := fun u hu => by
    cases (h.marked_of_place hu).symm.trans hclear
  have hdir : ¬ fs.directoryFile.hdr.Has s := fun hhas => by
    obtain ⟨i, hi⟩ := FileHeader.has_iff.mp hhas
    exact hnot (.directoryData i) hi
  have hmap : ¬ fs.freeMapFile.hdr.Has s := fun hhas => by
    obtain ⟨i, hi⟩ := FileHeader.has_iff.mp hhas
    exact hnot (.freeMapData i) hi
  exact header_congr ((hw.directoryOnly s hdir).trans (hw.freeMapOnly s hmap))

/-- The sectors of the new file. -/
theorem Writes.has_iff (hclear : (fs.freeMap disk).bit s = false) (hvalid : hdr.Valid) {b : Nat} :
    (FileSys.header disk₃ s).Has b ↔ hdr.Has b := by
  rw [FileHeader.has_iff, FileHeader.has_iff, hw.header_eq h hclear]
  exact exists_congr fun i => by rw [hw.header.sectorAt hvalid]

end Writes

/-- The bitmap in memory has the bits of the one on the disk. -/
structure FetchedMap (fs : FileSystem) (disk : Mem) (m : WordMap) : Prop where
  size : m.numBits = NumSectors
  bit : ∀ b < NumSectors, m.bit b = (fs.freeMap disk).bit b

theorem FetchedMap.NumClear {m : WordMap} (hm : fs.FetchedMap disk m) :
    m.NumClear = (fs.freeMap disk).NumClear :=
  WordMap.NumClear_congr hm.size fun i hi => hm.bit i hi

/-- **A file is added**: its header and its sectors were clear, its name was not there. -/
theorem Writes.added {disk₁ disk₂ disk₃ : Mem} {hdr : FileHeader} {d : Directory} {m m₀ : WordMap}
    {name : Nat → Byte} {size : Int} (h : fs.Good disk) (hd : fs.Fetched disk d)
    (hm : fs.FetchedMap disk m₀) (hs : s < NumSectors) (hclear : m₀.bit s = false)
    (hfree : e₀ < NumDirEntries ∧ d.entry e₀ = none)
    (hname : ∀ e b, fs.file disk e ≠ some (key name, b)) (hvalid : hdr.Valid)
    (hall : FileHeader.Allocated (m₀.mark s) size (FileHeader.needed size).toNat hdr m)
    (hw : fs.Writes disk disk₁ disk₂ disk₃ hdr (d.fill e₀ name s) m s) :
    fs.Added disk disk₃ e₀ (key name) s := by
  have hnum : NumSectors = 1024 := rfl
  have hclear' : (fs.freeMap disk).bit s = false := (hm.bit s hs).symm.trans hclear
  have hheader := hw.header_eq h hclear'
  have hhas : ∀ {b}, (FileSys.header disk₃ s).Has b ↔
      ∃ k < (FileHeader.needed size).toNat, (hdr.dataSectors k).toNat = b := by
    intro b
    rw [hw.has_iff h hclear' hvalid]
    unfold FileHeader.Has
    rw [hall.numSectors]
    exact exists_congr fun k => and_congr_left fun _ => by omega
  refine ⟨⟨hfree.1, ?_⟩, hname, ⟨hs, hclear'⟩, ?_, ?_, fun b hb => ?_, ?_, fun e he hne => ?_,
    fun b hb => ?_, hw.kept⟩
  · rw [FileSystem.file, if_pos hfree.1, ← hd.entry e₀ hfree.1, hfree.2]
    rfl
  · rw [hheader]
    exact hw.header.valid hvalid
  · rw [hheader, hw.header.numSectors, hw.header.numBytes, hall.numSectors, hall.numBytes]
  · obtain ⟨k, hk, rfl⟩ := hhas.mp hb
    obtain ⟨hpos, hlt, hbit⟩ := hall.clear k hk
    rw [WordMap.bit_mark] at hbit
    have hne : (hdr.dataSectors k).toNat ≠ s := fun heq => by
      rw [if_pos heq] at hbit
      cases hbit
    rw [if_neg hne] at hbit
    have hsize := hm.size
    refine ⟨hne, ?_⟩
    rw [← hm.bit _ (by rw [WordMap.numBits_mark] at hlt; omega)]
    exact hbit
  · rw [hw.entry h hfree.1]
    exact Directory.entry_fill (by omega)
  · rw [hw.entry h he, Directory.entry_fill_of_ne hne, hd.entry e he]
  · rw [hw.freeMap b hb, hall.marked b, WordMap.bit_mark, hhas, hm.bit b hb]
    by_cases hbs : b = s
    · simp [hbs]
    · simp [hbs]

theorem add_eq {d : Directory} (hd : fs.Fetched disk d) {name : Nat → Byte}
    (hindex : d.FindIndex name = none) (newSector : Int) :
    (∃ e < NumDirEntries, d.entry e = none ∧
      d.Add name newSector = (true, d.fill e name newSector)) ∨
    (fs.unused disk = ∅ ∧ d.Add name newSector = (false, d)) := by
  unfold Directory.Add
  rw [if_neg (not_not.mpr hindex)]
  cases hfind : (List.range d.tableSize).find? fun i => !d.inUse i with
  | some e =>
    obtain ⟨hlt, huse⟩ := Directory.found hfind
    rw [hd.size] at hlt
    refine .inl ⟨e, hlt, ?_, rfl⟩
    by_contra hentry
    rw [Directory.inUse_eq_true.mpr hentry] at huse
    cases huse
  | none =>
    refine .inr ⟨?_, rfl⟩
    rw [Finset.eq_empty_iff_forall_notMem]
    intro e he
    obtain ⟨hlt, hfile⟩ := mem_unused.mp he
    have huse := Directory.not_found.mp hfind e (by rw [hd.size]; exact hlt)
    rw [Bool.not_eq_false'] at huse
    have hentry := Directory.inUse_eq_true.mp huse
    rw [hd.entry e hlt] at hentry
    rw [FileSystem.file, if_pos hlt] at hfile
    exact hentry (Option.map_eq_none_iff.mp hfile)

/-- A file of this size was created. -/
structure Created (fs : FileSystem) (disk disk' : Mem) (name : Nat → Byte) (size : Int) :
    Prop where
  added : ∃ e s, fs.Added disk disk' e (key name) s ∧ (FileSys.header disk' s).numBytes = size
  left : (fs.freeMap disk').NumClear =
    (fs.freeMap disk).NumClear - (1 + max 0 (FileHeader.needed size))

theorem Good.fetch (h : fs.Good disk) (junk : Mem) :
    ∃ d m, fs.fetchDirectory disk junk = some d ∧ fs.Fetched disk d ∧
      fs.fetchFreeMap disk junk = some m ∧ fs.FetchedMap disk m := by
  obtain ⟨d, hd, hsize, hentry⟩ := h.fetchDirectory junk
  obtain ⟨m, hm, hbits, hbit⟩ := h.fetchFreeMap junk
  exact ⟨d, m, hd, ⟨hsize, hentry⟩, hm, ⟨hbits, hbit⟩⟩

/-- **Creating a file** is refused for a reason, and then nothing is written, or adds the file. -/
theorem Good.create_cases (h : fs.Good disk) (junk : Mem) (name : Nat → Byte) (size : Int)
    (hfits : FileHeader.Fits size) :
    (fs.Refused disk name size ∧ fs.Create disk junk name size = some (false, disk)) ∨
    (¬ fs.Refused disk name size ∧ ∃ disk', fs.Create disk junk name size = some (true, disk') ∧
      fs.Created disk disk' name size) := by
  obtain ⟨d, m₀, hd, hfetched, hm, hmap⟩ := h.fetch junk
  have hNumClear := hmap.NumClear
  unfold FileSystem.Create
  simp only [hd, Option.bind_eq_bind, Option.bind_some]
  rcases h.find hfetched name with ⟨e, b, -, hfind, hfile⟩ | ⟨hindex, hfind, hname⟩
  · -- the name is there
    left
    refine ⟨.inl ⟨e, b, hfile⟩, ?_⟩
    rw [hfind, if_pos (by omega)]
    rfl
  rw [hfind, if_neg (by simp)]
  simp only [hm, Option.bind_some]
  by_cases hleft : 0 < m₀.NumClear
  · obtain ⟨s, hs, hclear, hfree⟩ := m₀.Find_eq hleft
    rw [hmap.size] at hs
    simp only [hfree, Option.bind_some]
    rw [if_neg (by omega)]
    rcases add_eq hfetched hindex s with ⟨e₀, he₀, hentry, hadd⟩ | ⟨hfull, hadd⟩
    · simp only [hadd, Bool.not_true, Bool.false_eq_true, if_false]
      have hmark := WordMap.NumClear_mark (by rw [hmap.size]; exact hs) hclear
      by_cases hfew : (m₀.mark s).NumClear < FileHeader.needed size
      · -- there are not enough sectors
        left
        refine ⟨.inr (.inr (by omega)), ?_⟩
        obtain ⟨r, hr⟩ := FileHeader.Allocate_fails junk hfew
        rw [hr]
        rfl
      · right
        obtain ⟨hdr, m, hallocate, hvalid, hall⟩ := FileHeader.Allocate_eq junk hfits
          (m := m₀.mark s) (by rw [WordMap.numBits_mark, hmap.size]) (by omega)
        have hsize : m.numBits = NumSectors := hall.numBits.trans hmap.size
        obtain ⟨disk₁, hdisk₁, hlike, hother⟩ := FileHeader.WriteBack_eq disk hdr
          (show 0 ≤ (s : Int) ∧ (s : Int) < NumSectors by omega)
        obtain ⟨disk₂, hdisk₂, hdirectory, hdirOnly⟩ := h.sized.writeDirectory disk₁ junk
          (d := d.fill e₀ name s) hfetched.size
        obtain ⟨disk₃, hdisk₃, hfreeMap, hmapOnly⟩ := h.sized.writeFreeMap disk₂ junk hsize
        rw [Int.toNat_natCast] at hlike hother
        have hw : fs.Writes disk disk₁ disk₂ disk₃ hdr (d.fill e₀ name s) m s :=
          ⟨hlike, hother, hdirectory, hdirOnly, hfreeMap, hmapOnly⟩
        have hadded := hw.added h hfetched hmap hs hclear ⟨he₀, hentry⟩ hname hvalid hall
        refine ⟨?_, disk₃, ?_, ⟨e₀, s, hadded, ?_⟩, ?_⟩
        · rintro (⟨e, b, hfile⟩ | hfull | hfew')
          · exact hname e b hfile
          · have hmem := mem_unused.mpr hadded.free
            rw [hfull] at hmem
            cases hmem
          · omega
        · simp only [hallocate, Option.bind_some, Bool.not_true, Bool.false_eq_true, if_false,
            hdisk₁, hdisk₂, hdisk₃]
          rfl
        · rw [hw.header_eq h hadded.clear.2, hlike.numBytes, hall.numBytes]
        · have hsame : (fs.freeMap disk₃).NumClear = m.NumClear :=
            WordMap.NumClear_congr hsize.symm fun b hb => hfreeMap b (hsize ▸ hb)
          rw [hsame, hall.left]
          omega
    · -- the directory is full
      left
      refine ⟨.inr (.inl hfull), ?_⟩
      rw [hadd]
      rfl
  · -- there is no sector for the header
    left
    refine ⟨.inr (.inr (by omega)), ?_⟩
    simp only [WordMap.Find_none hleft, Option.bind_some]
    rfl

/-! ### Open -/

/-- **Opening a file** finds its header. -/
theorem Good.open_cases (h : fs.Good disk) (junk : Mem) (name : Nat → Byte) :
    (∃ e b, fs.file disk e = some (key name, b) ∧
      fs.Open disk junk name = some (some ⟨FileSys.header disk b, 0⟩)) ∨
    ((∀ e b, fs.file disk e ≠ some (key name, b)) ∧ fs.Open disk junk name = some none) := by
  obtain ⟨d, -, hd, hfetched, -⟩ := h.fetch junk
  unfold FileSystem.Open
  simp only [hd, Option.bind_eq_bind, Option.bind_some]
  rcases h.find hfetched name with ⟨e, b, -, hfind, hfile⟩ | ⟨-, hfind, hname⟩
  · have hlt := h.place_lt (place_header hfile)
    refine .inl ⟨e, b, hfile, ?_⟩
    rw [hfind, if_pos (by omega), OpenFile.new, FileHeader.FetchFrom_eq
      ⟨Int.natCast_nonneg b, by exact_mod_cast hlt⟩]
    rfl
  · refine .inr ⟨hname, ?_⟩
    rw [hfind]
    rfl

/-! ### Remove -/

/-- The header of a file and its data are marked. -/
theorem Good.marked_of_file (h : fs.Good disk) {f : List Byte × Nat}
    (hf : fs.file disk e = some f) :
    (fs.freeMap disk).bit f.2 = true ∧
      ∀ b, (FileSys.header disk f.2).Has b → (fs.freeMap disk).bit b = true ∧ b ≠ f.2 := by
  refine ⟨h.marked_of_place (place_header hf), fun b hb => ?_⟩
  obtain ⟨i, hi⟩ := has_place hf hb
  refine ⟨h.marked_of_place hi, ?_⟩
  rintro rfl
  cases h.placed _ _ _ hi (place_header hf)

/-- **Removing a file** takes its entry away and clears its sectors. -/
theorem Good.remove_cases (h : fs.Good disk) (junk : Mem) (name : Nat → Byte) :
    (∃ e b disk', fs.Remove disk junk name = some (true, disk') ∧
      fs.Removed disk disk' e (key name) b ∧
      (fs.freeMap disk').NumClear = (fs.freeMap disk).NumClear +
        (1 + max 0 (FileHeader.needed (FileSys.header disk b).numBytes))) ∨
    ((∀ e b, fs.file disk e ≠ some (key name, b)) ∧
      fs.Remove disk junk name = some (false, disk)) := by
  obtain ⟨d, m₀, hd, hfetched, hm, hmap⟩ := h.fetch junk
  unfold FileSystem.Remove
  simp only [hd, Option.bind_eq_bind, Option.bind_some]
  rcases h.find hfetched name with ⟨e, b, hindex, hfind, hfile⟩ | ⟨-, hfind, hname⟩
  · left
    have hlt := h.place_lt (place_header hfile)
    have hvalid := h.files e _ b hfile
    obtain ⟨hmarkedHeader, hmarkedData⟩ := h.marked_of_file hfile
    have hmarked : ∀ c, (FileSys.header disk b).Has c → m₀.bit c = true := fun c hc => by
      obtain ⟨i, hi⟩ := has_place hfile hc
      rw [hmap.bit c (h.place_lt hi)]
      exact (hmarkedData c hc).1
    obtain ⟨m₁, hdeallocate, hbits, hbit, hleft⟩ :=
      FileHeader.Deallocate_eq hvalid hmap.size hmarked
    have hsize : (m₁.clear b).numBits = NumSectors := hbits.trans hmap.size
    have hrange : m₁.InRange b := by
      refine ⟨Int.natCast_nonneg b, ?_⟩
      rw [hbits, hmap.size]
      exact_mod_cast hlt
    -- the header's own sector is marked until it is cleared
    have hheader : m₁.bit b = true := by
      refine (hbit b).mpr ⟨(hmap.bit b hlt).trans hmarkedHeader, fun hhas => ?_⟩
      exact (hmarkedData b hhas).2 rfl
    obtain ⟨disk₁, hdisk₁, hfreeMap, hmapOnly⟩ := h.sized.writeFreeMap disk junk hsize
    obtain ⟨disk₂, hdisk₂, hdirectory, hdirOnly⟩ := h.sized.writeDirectory disk₁ junk
      (d := d.setInUse e 0) hfetched.size
    have hlast : ∀ c < NumSectors, (fs.freeMap disk₂).bit c = (m₁.clear b).bit c := by
      intro c hc
      rw [h.sized.freeMap_congr (fun k hk => hdirOnly k ?_) hc, hfreeMap c hc]
      obtain ⟨i, hi⟩ := FileHeader.has_iff.mp hk
      exact h.not_directoryFile (u := .freeMapData i) hi (by simp)
    refine ⟨e, b, disk₂, ?_, ⟨hfile, ?_, fun e' he' hne => ?_, fun c hc => ?_, fun c _ hcm hcd => ?_⟩,
      ?_⟩
    · rw [hfind, if_neg (by omega), FileHeader.FetchFrom_eq
        ⟨Int.natCast_nonneg b, by exact_mod_cast hlt⟩, Option.bind_some, Int.toNat_natCast, hm,
        Option.bind_some, hdeallocate, Option.bind_some, WordMap.Clear, if_pos hrange,
        Option.bind_some, Int.toNat_natCast, Directory.Remove, hindex]
      dsimp only
      rw [hdisk₁, Option.bind_some, hdisk₂, Option.bind_some]
      rfl
    · rw [hdirectory e (file_some hfile).1]
      exact Directory.entry_setInUse_zero
    · rw [hdirectory e' he', Directory.entry_setInUse_of_ne hne, hfetched.entry e' he']
    · rw [hlast c hc, WordMap.bit_clear, ← hmap.bit c hc]
      by_cases hcb : c = b
      · simp [hcb]
      · rw [if_neg hcb, hbit c]
        simp [hcb]
    · exact (hmapOnly c hcm).trans (hdirOnly c hcd)
    · have hsame : (fs.freeMap disk₂).NumClear = (m₁.clear b).NumClear :=
        WordMap.NumClear_congr hsize.symm fun c hc => hlast c (hsize ▸ hc)
      rw [hsame, WordMap.NumClear_clear (by rw [hbits, hmap.size]; exact hlt) hheader, hleft,
        hmap.NumClear, h.taken e _ b hfile]
      omega
  · refine .inr ⟨hname, ?_⟩
    rw [hfind]
    rfl

end FileSystem

end Nachos.FileSys

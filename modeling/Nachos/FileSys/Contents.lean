import Nachos.FileSys.Basic

/-!
# The file system: a file is an array of bytes

Requests are cut at the end of the file and go through whole sectors, the first and the last of
which may be covered in part. Over a header in order (`FileHeader.Valid`) all of that is reading
and overwriting a stretch of an array of `numBytes` bytes (`ReadAt_eq`, `WriteAt_eq`), and no
assertion of the disk fails.
-/

namespace Nachos.FileSys

open Lib Lib.Mem

/-- The header points to different sectors of the disk, enough for its bytes. -/
structure FileHeader.Valid (hdr : FileHeader) : Prop where
  size : hdr.numBytes ≤ hdr.numSectors * SectorSize
  few : hdr.numSectors ≤ NumDirect
  onDisk : ∀ i : Nat, i < hdr.numSectors → 0 ≤ hdr.dataSectors i ∧ hdr.dataSectors i < NumSectors
  distinct : ∀ i j : Nat, i < hdr.numSectors → j < hdr.numSectors →
    hdr.dataSectors i = hdr.dataSectors j → i = j

namespace FileHeader

/-- Where on the disk a byte of the file is. -/
def address (hdr : FileHeader) (j : Nat) : Nat :=
  SectorSize * (hdr.dataSectors (j / SectorSize)).toNat + j % SectorSize

/-- The bytes of the file. -/
def byte (hdr : FileHeader) (disk : Mem) (j : Nat) : Byte := disk (hdr.address j)

/-- How many bytes a request transfers. -/
def count (hdr : FileHeader) (numBytes : Int) (position : Nat) : Nat :=
  min numBytes.toNat (hdr.numBytes.toNat - position)

/-- The sector is one of the file's. -/
def Has (hdr : FileHeader) (sector : Nat) : Prop :=
  ∃ i : Nat, i < hdr.numSectors ∧ (hdr.dataSectors i).toNat = sector

end FileHeader

theorem int32_eq {v : Int} (h : -2 ^ 31 ≤ v ∧ v < 2 ^ 31) : int32 v = v := by
  unfold int32
  rw [BitVec.toInt_ofInt]
  exact Int.bmod_eq_of_le (by omega) (by omega)

section

variable {disk junk into source : Mem} {hdr : FileHeader} {off position : Nat} {numBytes : Int}

theorem OpenFile.cut_eq (hpos : 0 < numBytes) (hlt : position < hdr.numBytes)
    (hint : position + numBytes < 2 ^ 31) :
    cut hdr.FileLength numBytes position = hdr.count numBytes position := by
  unfold cut FileHeader.FileLength FileHeader.count
  rw [int32_eq (by omega)]
  split <;> omega

/-- A request that transfers nothing. -/
theorem FileHeader.count_eq_zero (h : numBytes ≤ 0 ∨ position ≥ hdr.numBytes) :
    hdr.count numBytes position = 0 := by
  unfold count
  omega

/-- A request that transfers something lies in the sectors of the file. -/
structure Covers (hdr : FileHeader) (position n : Nat) : Prop where
  pos : 0 < n
  le : position + n ≤ hdr.numBytes.toNat

theorem Covers.of_count (hpos : 0 < numBytes) (hlt : position < hdr.numBytes) :
    Covers hdr position (hdr.count numBytes position) := by
  unfold FileHeader.count
  exact ⟨by omega, by omega⟩

/-- Each byte of the file is in one of its sectors. -/
theorem FileHeader.sector_lt {j : Nat} (hj : (j : Int) < hdr.numSectors * SectorSize) :
    ((j / SectorSize : Nat) : Int) < hdr.numSectors := by
  unfold SectorSize at hj ⊢
  omega

namespace FileHeader.Valid

variable (h : hdr.Valid) {n i j : Nat}

include h

theorem covers_lt (hcovers : Covers hdr position n)
    (hi : i ≤ (position + n - 1) / SectorSize) : (i : Int) < hdr.numSectors := by
  have hsize := h.size
  have hpos := hcovers.pos
  have hle := hcovers.le
  unfold SectorSize at *
  omega

end FileHeader.Valid

/-! ### The loops over the sectors -/

variable {n first : Nat}

theorem FileHeader.address_add {k : Nat} (i : Nat) (hk : k < SectorSize) :
    hdr.address (i * SectorSize + k) = SectorSize * (hdr.dataSectors i).toNat + k := by
  have hdiv : (i * SectorSize + k) / SectorSize = i := by
    unfold SectorSize at *
    omega
  have hmod : (i * SectorSize + k) % SectorSize = k := by
    unfold SectorSize at *
    omega
  rw [address, hdiv, hmod]

theorem FileHeader.ByteToSector_mul (i : Nat) :
    hdr.ByteToSector (i * SectorSize) = hdr.dataSectors i := by
  rw [ByteToSector, Nat.mul_div_cancel _ (by decide)]

/-- What a sector of the loop has to do with the buffer. -/
theorem sector_place {i j : Nat} (hfirst : first ≤ i) (hj : j < (i + 1 - first) * SectorSize)
    (hnot : ¬ j < (i - first) * SectorSize) :
    j - (i - first) * SectorSize < SectorSize ∧
      first * SectorSize + j = i * SectorSize + (j - (i - first) * SectorSize) := by
  unfold SectorSize at *
  omega

theorem OpenFile.readTurn_eq (h : hdr.Valid) {i : Nat} {buf : Mem}
    (hi : (i : Int) < hdr.numSectors) :
    readTurn disk hdr first i buf = some (copy buf ((i - first) * SectorSize) disk
      (SectorSize * (hdr.dataSectors i).toNat) SectorSize) := by
  rw [readTurn, FileHeader.ByteToSector_mul]
  exact if_pos (h.onDisk i hi)

theorem OpenFile.writeTurn_eq (h : hdr.Valid) {i : Nat} {buf : Mem}
    (hi : (i : Int) < hdr.numSectors) :
    writeTurn hdr buf first i disk = some (copy disk (SectorSize * (hdr.dataSectors i).toNat) buf
      ((i - first) * SectorSize) SectorSize) := by
  rw [writeTurn, FileHeader.ByteToSector_mul]
  exact if_pos (h.onDisk i hi)

/-- The sectors of a request are read one after the other. -/
theorem OpenFile.readSectors (disk junk : Mem) (first n : Nat) (h : hdr.Valid)
    (hsectors : ∀ i, first ≤ i → i < first + n → (i : Int) < hdr.numSectors) :
    ∃ buf, loop (readTurn disk hdr first) first n junk = some buf ∧
      ∀ j < n * SectorSize, buf j = hdr.byte disk (first * SectorSize + j) := by
  have hturn : ∀ i buf, first ≤ i → i < first + n →
      (∀ j < (i - first) * SectorSize, buf j = hdr.byte disk (first * SectorSize + j)) →
      ∃ buf', readTurn disk hdr first i buf = some buf' ∧
        ∀ j < (i + 1 - first) * SectorSize, buf' j = hdr.byte disk (first * SectorSize + j) := by
    intro i buf hfirst hlast hread
    refine ⟨_, readTurn_eq h (hsectors i hfirst hlast), fun j hj => ?_⟩
    by_cases hold : j < (i - first) * SectorSize
    · rw [copy_out (.inl hold)]
      exact hread j hold
    · -- a byte of the sector that was read now
      obtain ⟨hk, hplace⟩ := sector_place hfirst hj hold
      rw [copy_in (by omega), FileHeader.byte, hplace, FileHeader.address_add i hk]
  have hinit : ∀ j < (first - first) * SectorSize,
      junk j = hdr.byte disk (first * SectorSize + j) := by simp
  obtain ⟨buf, hbuf, hread⟩ := loop_rule (n := n) (fun i (buf : Mem) => ∀ j < (i - first) * SectorSize,
    buf j = hdr.byte disk (first * SectorSize + j)) hinit hturn
  refine ⟨buf, hbuf, fun j hj => hread j ?_⟩
  rw [Nat.add_sub_cancel_left]
  exact hj

/-- An address is in a sector of its own number. -/
theorem FileHeader.address_div (j : Nat) :
    hdr.address j / SectorSize = (hdr.dataSectors (j / SectorSize)).toNat := by
  unfold address SectorSize
  omega

theorem div_of_sector {a sector : Nat} :
    (SectorSize * sector ≤ a ∧ a < SectorSize * sector + SectorSize) ↔ a / SectorSize = sector := by
  unfold SectorSize
  omega

/-- **The sectors of a request are written one after the other**, and no other byte of the file
and no other sector is. -/
theorem OpenFile.writeSectors (disk buf : Mem) (first n : Nat) (h : hdr.Valid)
    (hsectors : ∀ i, first ≤ i → i < first + n → (i : Int) < hdr.numSectors) :
    ∃ disk', loop (writeTurn hdr buf first) first n disk = some disk' ∧
      (∀ j : Nat, j < hdr.numSectors * SectorSize → hdr.byte disk' j =
        if first * SectorSize ≤ j ∧ j < (first + n) * SectorSize then buf (j - first * SectorSize)
        else hdr.byte disk j) ∧
      ∀ a, ¬ hdr.Has (a / SectorSize) → disk' a = disk a := by
  refine loop_rule (fun i disk' => (∀ j : Nat, j < hdr.numSectors * SectorSize →
      hdr.byte disk' j = if first * SectorSize ≤ j ∧ j < i * SectorSize then
        buf (j - first * SectorSize) else hdr.byte disk j) ∧
    ∀ a, ¬ hdr.Has (a / SectorSize) → disk' a = disk a) ?_ ?_
  · refine ⟨fun j _ => ?_, fun _ _ => rfl⟩
    rw [if_neg (by omega)]
  · rintro i disk' hfirst hlast ⟨hwritten, hframe⟩
    have hi := hsectors i hfirst hlast
    refine ⟨_, writeTurn_eq h hi, fun j hj => ?_, fun a ha => ?_⟩
    · by_cases hsector : j / SectorSize = i
      · -- a byte of the sector that was written now
        have hplace : j = i * SectorSize + j % SectorSize := by
          unfold SectorSize at *
          omega
        have hk : j % SectorSize < SectorSize := Nat.mod_lt _ (by decide)
        have hin : first * SectorSize ≤ j ∧ j < (i + 1) * SectorSize := by
          unfold SectorSize at *
          omega
        have hadd : hdr.address j = SectorSize * (hdr.dataSectors i).toNat + j % SectorSize := by
          rw [FileHeader.address, hsector]
        rw [if_pos hin, FileHeader.byte, hadd, copy_at hk]
        congr 1
        unfold SectorSize at *
        omega
      · have hother : hdr.address j / SectorSize ≠ (hdr.dataSectors i).toNat := by
          rw [FileHeader.address_div]
          intro heq
          have hjsector := FileHeader.sector_lt hj
          refine hsector (h.distinct _ _ hjsector hi ?_)
          have := (h.onDisk _ hjsector).1
          have := (h.onDisk _ hi).1
          omega
        have hiff : (first * SectorSize ≤ j ∧ j < (i + 1) * SectorSize) ↔
            (first * SectorSize ≤ j ∧ j < i * SectorSize) := by
          unfold SectorSize at *
          omega
        rw [FileHeader.byte, copy_out (by
          have := div_of_sector.not.mpr hother
          omega)]
        simp only [hiff]
        exact hwritten j hj
    · rw [copy_out]
      · exact hframe a ha
      · have := div_of_sector.not.mpr fun heq => ha ⟨i, hi, heq.symm⟩
        omega

/-! ### Reading and writing -/

/-- The sectors that a request goes through are the file's. -/
theorem Covers.sectors (h : hdr.Valid) (hcovers : Covers hdr position n) (i : Nat)
    (hlast : i < position / SectorSize +
      (1 + (position + n - 1) / SectorSize - position / SectorSize)) :
    (i : Int) < hdr.numSectors := by
  refine h.covers_lt hcovers ?_
  have := hcovers.pos
  unfold SectorSize at *
  omega

/-- **Reading is copying from the array.** -/
theorem OpenFile.ReadAt_eq {file : OpenFile} (h : file.hdr.Valid)
    (hint : position + numBytes < 2 ^ 31) :
    ReadAt disk junk file into off numBytes position =
      some ((file.hdr.count numBytes position : Int),
        copy into off (file.hdr.byte disk) position (file.hdr.count numBytes position)) := by
  by_cases hnone : numBytes ≤ 0 ∨ position ≥ file.hdr.numBytes
  · rw [FileHeader.count_eq_zero hnone, copy_zero]
    exact if_pos hnone
  · have hpos : 0 < numBytes := by omega
    have hlt : (position : Int) < file.hdr.numBytes := by omega
    have hcovers := Covers.of_count hpos hlt
    unfold ReadAt
    dsimp only
    rw [if_neg (show ¬ (numBytes ≤ 0 ∨ position ≥ file.hdr.FileLength) from hnone), cut_eq hpos hlt hint]
    obtain ⟨buf, hbuf, hread⟩ := readSectors disk junk (position / SectorSize)
      (1 + (position + file.hdr.count numBytes position - 1) / SectorSize - position / SectorSize) h
      fun i _ hi => hcovers.sectors h i hi
    rw [hbuf]
    simp only [Option.map_some]
    congr 2
    funext a
    by_cases ha : off ≤ a ∧ a < off + file.hdr.count numBytes position
    · rw [copy_in ha, copy_in ha, hread _ (by
        have := hcovers.pos
        unfold SectorSize at *
        omega)]
      congr 1
      unfold SectorSize at *
      omega
    · rw [copy_out (by omega), copy_out (by omega)]

/-- A whole sector is read, up to the end of the file. -/
theorem OpenFile.ReadAt_sector (disk junk into : Mem) (off i : Nat) {file : OpenFile}
    (h : file.hdr.Valid)
    (hi : (i : Int) * SectorSize < file.hdr.numBytes) :
    ∃ k buf, ReadAt disk junk file into off SectorSize (i * SectorSize) = some (k, buf) ∧
      (∀ j, j < SectorSize → i * SectorSize + j < file.hdr.numBytes.toNat →
        buf (off + j) = file.hdr.byte disk (i * SectorSize + j)) ∧
      ∀ a, a < off → buf a = into a := by
  have hsize := h.size
  have hfew := h.few
  refine ⟨_, _, ReadAt_eq h ?_, fun j hj hlt => ?_, fun a ha => copy_out (.inl ha)⟩
  · unfold NumDirect at hfew
    unfold SectorSize at *
    omega
  · refine copy_at ?_
    unfold FileHeader.count SectorSize at *
    omega

/-- **Writing is overwriting a stretch of the array**; other sectors stay as they are. -/
theorem OpenFile.WriteAt_eq (disk junk source : Mem) {file : OpenFile} (h : file.hdr.Valid)
    (hint : position + numBytes < 2 ^ 31) :
    ∃ disk', WriteAt disk junk file source numBytes position =
        some ((file.hdr.count numBytes position : Int), disk') ∧
      (∀ j : Nat, j < file.hdr.numBytes → file.hdr.byte disk' j =
        if position ≤ j ∧ j < position + file.hdr.count numBytes position then
          source (j - position)
        else file.hdr.byte disk j) ∧
      ∀ a, ¬ file.hdr.Has (a / SectorSize) → disk' a = disk a := by
  by_cases hnone : numBytes ≤ 0 ∨ position ≥ file.hdr.numBytes
  · rw [FileHeader.count_eq_zero hnone]
    refine ⟨disk, if_pos hnone, fun j _ => ?_, fun _ _ => rfl⟩
    rw [if_neg (by omega)]
  · have hpos : 0 < numBytes := by omega
    have hlt : (position : Int) < file.hdr.numBytes := by omega
    have hcovers := Covers.of_count hpos hlt
    unfold WriteAt
    dsimp only
    rw [if_neg (show ¬ (numBytes ≤ 0 ∨ position ≥ file.hdr.FileLength) from hnone),
      cut_eq hpos hlt hint]
    generalize file.hdr.count numBytes position = c at *
    have hc := hcovers.pos
    have hle := hcovers.le
    -- the first sector, where it is written in part
    obtain ⟨buf₁, hbuf₁, hread₁⟩ : ∃ buf₁ : Mem,
        (if ¬ position = position / SectorSize * SectorSize then
          (ReadAt disk junk file junk 0 SectorSize (position / SectorSize * SectorSize)).map
            Prod.snd
        else some junk) = some buf₁ ∧
        (¬ position = position / SectorSize * SectorSize → ∀ j, j < SectorSize →
          position / SectorSize * SectorSize + j < file.hdr.numBytes.toNat →
          buf₁ j = file.hdr.byte disk (position / SectorSize * SectorSize + j)) := by
      by_cases haligned : position = position / SectorSize * SectorSize
      · exact ⟨junk, if_neg (not_not.mpr haligned), fun hnot => absurd haligned hnot⟩
      · obtain ⟨k, buf, hbuf, hread, -⟩ := ReadAt_sector disk junk junk 0
          (position / SectorSize) h (by
            unfold SectorSize
            omega)
        refine ⟨buf, ?_, fun _ j hj hjlt => ?_⟩
        · rw [if_pos haligned, hbuf]
          rfl
        · have hj' := hread j hj hjlt
          rw [Nat.zero_add] at hj'
          exact hj'
    -- the last one, if it is another one or was not read
    obtain ⟨buf₂, hbuf₂, hread₂⟩ : ∃ buf₂ : Mem,
        (if ¬ position + c = ((position + c - 1) / SectorSize + 1) * SectorSize ∧
            (position / SectorSize ≠ (position + c - 1) / SectorSize ∨
              position = position / SectorSize * SectorSize) then
          (ReadAt disk junk file buf₁
            (((position + c - 1) / SectorSize - position / SectorSize) * SectorSize) SectorSize
            ((position + c - 1) / SectorSize * SectorSize)).map Prod.snd
        else some buf₁) = some buf₂ ∧
        ∀ j, position / SectorSize * SectorSize ≤ j →
          j < ((position + c - 1) / SectorSize + 1) * SectorSize →
          j < file.hdr.numBytes.toNat → (j < position ∨ position + c ≤ j) →
          buf₂ (j - position / SectorSize * SectorSize) = file.hdr.byte disk j := by
      by_cases hlast : ¬ position + c = ((position + c - 1) / SectorSize + 1) * SectorSize ∧
          (position / SectorSize ≠ (position + c - 1) / SectorSize ∨
            position = position / SectorSize * SectorSize)
      · obtain ⟨k, buf, hbuf, hread, hkept⟩ := ReadAt_sector disk junk buf₁
          (((position + c - 1) / SectorSize - position / SectorSize) * SectorSize)
          ((position + c - 1) / SectorSize) h (by
            unfold SectorSize
            omega)
        refine ⟨buf, by rw [if_pos hlast, hbuf]; rfl, fun j hfirst hj hjlt hout => ?_⟩
        rcases hout with hbefore | hafter
        · -- before the request, in the first sector
          have haligned : ¬ position = position / SectorSize * SectorSize := by omega
          have hother : position / SectorSize ≠ (position + c - 1) / SectorSize :=
            hlast.2.resolve_right haligned
          rw [hkept _ (by
            unfold SectorSize at *
            omega), hread₁ haligned _ (by
            unfold SectorSize at *
            omega) (by omega)]
          congr 1
          omega
        · -- after it, in the last one
          have hplace : j - position / SectorSize * SectorSize =
              ((position + c - 1) / SectorSize - position / SectorSize) * SectorSize +
                (j - (position + c - 1) / SectorSize * SectorSize) := by
            unfold SectorSize at *
            omega
          rw [hplace, hread _ (by
            unfold SectorSize at *
            omega) (by
            unfold SectorSize at *
            omega)]
          congr 1
          unfold SectorSize at *
          omega
      · refine ⟨buf₁, if_neg hlast, fun j hfirst hj hjlt hout => ?_⟩
        have haligned : ¬ position = position / SectorSize * SectorSize := by
          unfold SectorSize at *
          omega
        rw [hread₁ haligned _ (by
          unfold SectorSize at *
          omega) (by omega)]
        congr 1
        omega
    obtain ⟨disk', hdisk', hwritten, hframe⟩ := writeSectors disk
      (copy buf₂ (position - position / SectorSize * SectorSize) source 0 c)
      (position / SectorSize) (1 + (position + c - 1) / SectorSize - position / SectorSize) h
      fun i _ hi => hcovers.sectors h i hi
    refine ⟨disk', ?_, fun j hj => ?_, hframe⟩
    · rw [hbuf₁, Option.bind_some, hbuf₂, Option.bind_some, hdisk']
      rfl
    · have hsize := h.size
      rw [hwritten j (by omega)]
      by_cases hin : position ≤ j ∧ j < position + c
      · rw [if_pos hin, if_pos (by
          unfold SectorSize at *
          omega), copy_in (by omega)]
        congr 1
        unfold SectorSize at *
        omega
      · rw [if_neg hin]
        split
        · rename_i hsectors
          have hstart := Nat.div_mul_le_self position SectorSize
          rw [copy_out (by omega)]
          refine hread₂ j hsectors.1 ?_ (by omega) (by omega)
          unfold SectorSize at *
          omega
        · rfl

/-- The size of a file is small. -/
theorem FileHeader.Valid.small (h : hdr.Valid) : hdr.numBytes ≤ MaxFileSize := by
  have hsize := h.size
  have hfew := h.few
  have hmax : ((MaxFileSize : Nat) : Int) = 3840 := rfl
  have hdirect : ((NumDirect : Nat) : Int) = 30 := rfl
  have hsector : ((SectorSize : Nat) : Int) = 128 := rfl
  rw [hsector] at hsize
  omega

/-- A file is read whole. -/
theorem OpenFile.ReadAt_whole (disk junk into : Mem) {file : OpenFile} (h : file.hdr.Valid)
    (hn : file.hdr.numBytes = n) :
    ReadAt disk junk file into 0 n 0 = some ((n : Int), copy into 0 (file.hdr.byte disk) 0 n) := by
  have hsmall := h.small
  have hmax : ((MaxFileSize : Nat) : Int) = 3840 := rfl
  have hcount : file.hdr.count n 0 = n := by
    unfold FileHeader.count
    omega
  rw [ReadAt_eq h (by omega), hcount]

/-- A file is overwritten whole. -/
theorem OpenFile.WriteAt_whole (disk junk source : Mem) {file : OpenFile} (h : file.hdr.Valid)
    (hn : file.hdr.numBytes = n) :
    ∃ disk', WriteAt disk junk file source n 0 = some ((n : Int), disk') ∧
      (∀ j < n, file.hdr.byte disk' j = source j) ∧
      ∀ a, ¬ file.hdr.Has (a / SectorSize) → disk' a = disk a := by
  have hsmall := h.small
  have hmax : ((MaxFileSize : Nat) : Int) = 3840 := rfl
  have hcount : file.hdr.count n 0 = n := by
    unfold FileHeader.count
    omega
  obtain ⟨disk', hdisk', hwritten, hframe⟩ := WriteAt_eq disk junk source h
    (show ((0 : Nat) : Int) + (n : Int) < 2 ^ 31 by omega)
  rw [hcount] at hdisk' hwritten
  refine ⟨disk', hdisk', fun j hj => ?_, hframe⟩
  rw [hwritten j (by omega), if_pos (by omega), Nat.sub_zero]

end

end Nachos.FileSys

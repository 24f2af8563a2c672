import Nachos.Lib.Loop
import Nachos.Lib.Memory

/-!
# The file system: sectors, file headers, open files

`filesys/filehdr.cc` and `filesys/openfile.cc`, over the sectors that `synchDisk` reads and
writes. A structure of the source is the bytes that it takes in memory, because it is read from
a sector and written to one as such; its fields are integers at their offsets.

A failed `ASSERT` has no result. What `new` leaves in memory is a parameter, `junk`. Requests for a
negative position are left out.
-/

namespace Nachos.FileSys

open Lib Lib.Mem

def SectorSize : Nat := 128
def SectorsPerTrack : Nat := 32
def NumTracks : Nat := 32
def NumSectors : Nat := SectorsPerTrack * NumTracks

/-- The block pointers of a file header, which takes one sector. -/
def NumDirect : Nat := (SectorSize - 2 * 4) / 4
def MaxFileSize : Nat := NumDirect * SectorSize

/-- `divRoundUp`, on integers as C divides them. -/
def divRoundUp (n s : Int) : Int := n.tdiv s + if n.tmod s > 0 then 1 else 0

/-- What is left of a sum in an `int`. -/
def int32 (v : Int) : Int := (BitVec.ofInt 32 v).toInt

/-! ### The disk -/

/-- `SynchDisk::ReadSector`: the sector is copied to `&data[off]`. -/
def ReadSector (disk : Mem) (sectorNumber : Int) (data : Mem) (off : Nat) : Option Mem :=
  if 0 ≤ sectorNumber ∧ sectorNumber < NumSectors then
    some (copy data off disk (SectorSize * sectorNumber.toNat) SectorSize)
  else none

/-- `SynchDisk::WriteSector`: the sector is overwritten from `&data[off]`. -/
def WriteSector (disk : Mem) (sectorNumber : Int) (data : Mem) (off : Nat) : Option Mem :=
  if 0 ≤ sectorNumber ∧ sectorNumber < NumSectors then
    some (copy disk (SectorSize * sectorNumber.toNat) data off SectorSize)
  else none

/-! ### File headers -/

/-- `class FileHeader`: its fields are at these offsets. -/
abbrev FileHeader := Mem

namespace FileHeader

def numBytes (hdr : FileHeader) : Int := intAt hdr 0
def numSectors (hdr : FileHeader) : Int := intAt hdr 4
def dataSectors (hdr : FileHeader) (i : Nat) : Int := intAt hdr (8 + 4 * i)

/-- All the bytes of the header are overwritten. -/
def FetchFrom (disk : Mem) (sector : Int) : Option FileHeader :=
  ReadSector disk sector (fun _ => 0) 0

def WriteBack (disk : Mem) (hdr : FileHeader) (sector : Int) : Option Mem :=
  WriteSector disk sector hdr 0

def ByteToSector (hdr : FileHeader) (offset : Nat) : Int := hdr.dataSectors (offset / SectorSize)

def FileLength (hdr : FileHeader) : Int := hdr.numBytes

end FileHeader

/-! ### Open files -/

structure OpenFile where
  hdr : FileHeader
  seekPosition : Nat

namespace OpenFile

/-- `OpenFile::OpenFile`. -/
def new (disk : Mem) (sector : Int) : Option OpenFile :=
  (FileHeader.FetchFrom disk sector).map fun hdr => ⟨hdr, 0⟩

def Seek (file : OpenFile) (position : Nat) : OpenFile := { file with seekPosition := position }

def Length (file : OpenFile) : Int := file.hdr.FileLength

/-- The bytes that a request is cut to. -/
def cut (fileLength numBytes : Int) (position : Nat) : Nat :=
  (if int32 (position + numBytes) > fileLength then fileLength - position else numBytes).toNat

/-- One turn of the loop of `ReadAt`: a sector of the file is read into the buffer. -/
def readTurn (disk : Mem) (hdr : FileHeader) (firstSector i : Nat) (buf : Mem) : Option Mem :=
  ReadSector disk (hdr.ByteToSector (i * SectorSize)) buf ((i - firstSector) * SectorSize)

/-- One turn of the loop of `WriteAt`. -/
def writeTurn (hdr : FileHeader) (buf : Mem) (firstSector i : Nat) (disk : Mem) : Option Mem :=
  WriteSector disk (hdr.ByteToSector (i * SectorSize)) buf ((i - firstSector) * SectorSize)

/-- `OpenFile::ReadAt`, to `&into[off]`. -/
def ReadAt (disk junk : Mem) (file : OpenFile) (into : Mem) (off : Nat) (numBytes : Int)
    (position : Nat) : Option (Int × Mem) :=
  let fileLength := file.hdr.FileLength
  if numBytes ≤ 0 ∨ position ≥ fileLength then some (0, into)
  else
    let numBytes := cut fileLength numBytes position
    let firstSector := position / SectorSize
    let lastSector := (position + numBytes - 1) / SectorSize
    let numSectors := 1 + lastSector - firstSector
    (loop (readTurn disk file.hdr firstSector) firstSector numSectors junk).map fun buf =>
      ((numBytes : Int), copy into off buf (position - firstSector * SectorSize) numBytes)

/-- `OpenFile::WriteAt`: the sectors that are written in part are read first. -/
def WriteAt (disk junk : Mem) (file : OpenFile) (source : Mem) (numBytes : Int)
    (position : Nat) : Option (Int × Mem) :=
  let fileLength := file.hdr.FileLength
  if numBytes ≤ 0 ∨ position ≥ fileLength then some (0, disk)
  else
    let numBytes := cut fileLength numBytes position
    let firstSector := position / SectorSize
    let lastSector := (position + numBytes - 1) / SectorSize
    let numSectors := 1 + lastSector - firstSector
    let firstAligned := position = firstSector * SectorSize
    let lastAligned := position + numBytes = (lastSector + 1) * SectorSize
    (if ¬ firstAligned then
      (ReadAt disk junk file junk 0 SectorSize (firstSector * SectorSize)).map Prod.snd
    else some junk).bind fun buf =>
    (if ¬ lastAligned ∧ (firstSector ≠ lastSector ∨ firstAligned) then
      (ReadAt disk junk file buf ((lastSector - firstSector) * SectorSize) SectorSize
        (lastSector * SectorSize)).map Prod.snd
    else some buf).bind fun buf =>
    let buf := copy buf (position - firstSector * SectorSize) source 0 numBytes
    (loop (writeTurn file.hdr buf firstSector) firstSector numSectors disk).map fun disk =>
      ((numBytes : Int), disk)

/-- `OpenFile::Read`, to `into`. -/
def Read (disk junk : Mem) (file : OpenFile) (into : Mem) (numBytes : Int) :
    Option (Int × Mem × OpenFile) :=
  (ReadAt disk junk file into 0 numBytes file.seekPosition).map fun (result, into) =>
    (result, into, file.Seek (file.seekPosition + result.toNat))

/-- `OpenFile::Write`. -/
def Write (disk junk : Mem) (file : OpenFile) (source : Mem) (numBytes : Int) :
    Option (Int × Mem × OpenFile) :=
  (WriteAt disk junk file source numBytes file.seekPosition).map fun (result, disk) =>
    (result, disk, file.Seek (file.seekPosition + result.toNat))

end OpenFile

end Nachos.FileSys

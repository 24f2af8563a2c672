import Nachos.FileSys.Directory
import Nachos.FileSys.FreeMap
import Nachos.Lib.Path

/-!
# The file system

`filesys/filesys.cc`, and what of `filesys/filehdr.cc` changes the bitmap. The bitmap and the
directory are files themselves: each operation fetches them, changes its copies, and writes them
back if it succeeds.

A run of the file system is any sequence of creating, opening, reading, writing, removing and
starting the machine again (`Step`). Files that are open are numbered by their users.
-/

namespace Nachos.FileSys

open Lib Lib.Mem

def FreeMapSector : Nat := 0
def DirectorySector : Nat := 1
def FreeMapFileSize : Nat := NumSectors / 8
def NumDirEntries : Nat := 10
def DirectoryFileSize : Nat := sizeofEntry * NumDirEntries

namespace FileHeader

/-- One turn of the loop of `Allocate`: `dataSectors[i] = freeMap->Find()`. -/
def allocateTurn (i : Nat) (s : FileHeader × WordMap) : Option (FileHeader × WordMap) :=
  s.2.Find.map fun (sector, freeMap) => (putInt s.1 (8 + 4 * i) sector, freeMap)

/-- `FileHeader::Allocate`. -/
def Allocate (hdr : FileHeader) (freeMap : WordMap) (fileSize : Int) :
    Option (Bool × FileHeader × WordMap) :=
  let numSectors := divRoundUp fileSize SectorSize
  let hdr := putInt (putInt hdr 0 fileSize) 4 numSectors
  if freeMap.NumClear < numSectors then some (false, hdr, freeMap)
  else (loop allocateTurn 0 numSectors.toNat (hdr, freeMap)).map fun s => (true, s)

/-- One turn of the loop of `Deallocate`. -/
def deallocateTurn (hdr : FileHeader) (i : Nat) (freeMap : WordMap) : Option WordMap :=
  (freeMap.Test (hdr.dataSectors i)).bind fun marked =>
    if marked then freeMap.Clear (hdr.dataSectors i) else none

/-- `FileHeader::Deallocate`. -/
def Deallocate (hdr : FileHeader) (freeMap : WordMap) : Option WordMap :=
  loop hdr.deallocateTurn 0 hdr.numSectors.toNat freeMap

end FileHeader

/-- `class FileSystem`: the two files that are left open. -/
structure FileSystem where
  freeMapFile : OpenFile
  directoryFile : OpenFile

namespace FileSystem

/-- `FileSystem::FileSystem(FALSE)`. -/
def mount (disk : Mem) : Option FileSystem :=
  (OpenFile.new disk FreeMapSector).bind fun freeMapFile =>
    (OpenFile.new disk DirectorySector).map fun directoryFile => ⟨freeMapFile, directoryFile⟩

/-- `ASSERT(hdr->Allocate(freeMap, size))`. -/
def allocated (junk : Mem) (freeMap : WordMap) (size : Nat) : Option (FileHeader × WordMap) :=
  (FileHeader.Allocate junk freeMap size).bind fun (success, s) => if success then some s else none

/-- `FileSystem::FileSystem(TRUE)`, and the disk it leaves. -/
def format (disk junk : Mem) : Option (FileSystem × Mem) := do
  let freeMap ← WordMap.new junk NumSectors
  let directory := Directory.new junk NumDirEntries
  let freeMap ← freeMap.Mark FreeMapSector
  let freeMap ← freeMap.Mark DirectorySector
  let (mapHdr, freeMap) ← allocated junk freeMap FreeMapFileSize
  let (dirHdr, freeMap) ← allocated junk freeMap DirectoryFileSize
  let disk ← mapHdr.WriteBack disk FreeMapSector
  let disk ← dirHdr.WriteBack disk DirectorySector
  let fs ← mount disk
  let disk ← freeMap.WriteBack disk junk fs.freeMapFile
  let disk ← directory.WriteBack disk junk fs.directoryFile
  return (fs, disk)

/-- `directory = new Directory(NumDirEntries); directory->FetchFrom(directoryFile)`. -/
def fetchDirectory (fs : FileSystem) (disk junk : Mem) : Option Directory :=
  (Directory.new junk NumDirEntries).FetchFrom disk junk fs.directoryFile

/-- `freeMap = new BitMap(NumSectors); freeMap->FetchFrom(freeMapFile)`. -/
def fetchFreeMap (fs : FileSystem) (disk junk : Mem) : Option WordMap :=
  (WordMap.new junk NumSectors).bind fun freeMap => freeMap.FetchFrom disk junk fs.freeMapFile

/-- `FileSystem::Create`, and the disk it leaves. -/
def Create (fs : FileSystem) (disk junk : Mem) (name : Nat → Byte) (initialSize : Int) :
    Option (Bool × Mem) := do
  let directory ← fs.fetchDirectory disk junk
  if directory.Find name ≠ -1 then return (false, disk)
  let freeMap ← fs.fetchFreeMap disk junk
  let (sector, freeMap) ← freeMap.Find
  if sector = -1 then return (false, disk)
  let (added, directory) := directory.Add name sector
  if !added then return (false, disk)
  let (success, hdr, freeMap) ← FileHeader.Allocate junk freeMap initialSize
  if !success then return (false, disk)
  let disk ← hdr.WriteBack disk sector
  let disk ← directory.WriteBack disk junk fs.directoryFile
  let disk ← freeMap.WriteBack disk junk fs.freeMapFile
  return (true, disk)

/-- `FileSystem::Open`; `none` inside stands for `NULL`. -/
def Open (fs : FileSystem) (disk junk : Mem) (name : Nat → Byte) : Option (Option OpenFile) := do
  let directory ← fs.fetchDirectory disk junk
  let sector := directory.Find name
  if sector ≥ 0 then
    let openFile ← OpenFile.new disk sector
    return some openFile
  else return none

/-- `FileSystem::Remove`, and the disk it leaves. -/
def Remove (fs : FileSystem) (disk junk : Mem) (name : Nat → Byte) : Option (Bool × Mem) := do
  let directory ← fs.fetchDirectory disk junk
  let sector := directory.Find name
  if sector = -1 then return (false, disk)
  let fileHdr ← FileHeader.FetchFrom disk sector
  let freeMap ← fs.fetchFreeMap disk junk
  let freeMap ← fileHdr.Deallocate freeMap
  let freeMap ← freeMap.Clear sector
  let (_, directory) := directory.Remove name
  let disk ← freeMap.WriteBack disk junk fs.freeMapFile
  let disk ← directory.WriteBack disk junk fs.directoryFile
  return (true, disk)

end FileSystem

/-! ### Runs -/

/-- The machine: `opened` has the files that users have open, with the characters that count of the
names they were opened by. -/
structure State where
  disk : Mem
  fs : FileSystem
  opened : Nat → Option (List Byte × OpenFile)

inductive Request where
  | create (name : Nat → Byte) (initialSize : Int)
  | remove (name : Nat → Byte)
  | openAs (k : Nat) (name : Nat → Byte)
  | close (k : Nat)
  | seek (k position : Nat)
  | length (k : Nat)
  | read (k : Nat) (numBytes : Int)
  | write (k : Nat) (source : Mem) (numBytes : Int)
  | readAt (k : Nat) (numBytes : Int) (position : Nat)
  | writeAt (k : Nat) (source : Mem) (numBytes : Int) (position : Nat)
  | mount

inductive Answer where
  | done (success : Bool)
  | count (v : Int)
  | bytes (l : List Byte)
  | nothing
  deriving DecidableEq

namespace State

/-- The file `k` is another one, or none, from now on. -/
def setOpened (s : State) (k : Nat) (f : Option (List Byte × OpenFile)) : State :=
  { s with opened := Function.update s.opened k f }

/-- The first bytes of a buffer. -/
def firstBytes (buf : Mem) (numBytes : Int) : List Byte := (List.range numBytes.toNat).map buf

/-- A request is answered; `none` where an assertion fails or `k` is not open. -/
def serve (junk : Mem) (s : State) : Request → Option (Answer × State)
  | .create name initialSize => (s.fs.Create s.disk junk name initialSize).map fun (success, disk) =>
      (.done success, { s with disk := disk })
  | .remove name => (s.fs.Remove s.disk junk name).map fun (success, disk) =>
      (.done success, { s with disk := disk })
  | .openAs k name => (s.fs.Open s.disk junk name).map fun file =>
      match file with
      | some file => (.done true, s.setOpened k (some (cString FileNameMaxLen name, file)))
      | none => (.done false, s)
  | .close k => some (.nothing, s.setOpened k none)
  | .seek k position => (s.opened k).map fun (name, file) =>
      (.nothing, s.setOpened k (some (name, file.Seek position)))
  | .length k => (s.opened k).map fun (_, file) => (.count file.Length, s)
  | .read k numBytes => (s.opened k).bind fun (name, file) =>
      (file.Read s.disk junk junk numBytes).map fun (result, into, file) =>
        (.bytes (firstBytes into result), s.setOpened k (some (name, file)))
  | .write k source numBytes => (s.opened k).bind fun (name, file) =>
      (file.Write s.disk junk source numBytes).map fun (result, disk, file) =>
        (.count result, { s with disk := disk }.setOpened k (some (name, file)))
  | .readAt k numBytes position => (s.opened k).bind fun (_, file) =>
      (file.ReadAt s.disk junk junk 0 numBytes position).map fun (result, into) =>
        (.bytes (firstBytes into result), s)
  | .writeAt k source numBytes position => (s.opened k).bind fun (_, file) =>
      (file.WriteAt s.disk junk source numBytes position).map fun (result, disk) =>
        (.count result, { s with disk := disk })
  | .mount => (FileSystem.mount s.disk).map fun fs => (.nothing, ⟨s.disk, fs, fun _ => none⟩)

end State

/-- One request, whatever `new` leaves in memory. -/
def Step (s : State) (a : Request × Answer) (s' : State) : Prop :=
  ∃ junk, s.serve junk a.1 = some (a.2, s')

/-- What a user has to see to: no request goes past what an `int` holds, no file is larger than
its header has room for, and no file is removed while it is open.  That positions are not negative
is in the type of a `Request`. -/
def Careful (s : State) : Request → Prop
  | .create _ initialSize => 0 ≤ initialSize ∧ initialSize ≤ MaxFileSize
  | .remove name => ∀ k f, s.opened k ≠ some (cString FileNameMaxLen name, f)
  | .seek k _ | .length k => ∃ f, s.opened k = some f
  | .read k numBytes | .write k _ numBytes =>
      ∃ f, s.opened k = some f ∧ f.2.seekPosition + numBytes < 2 ^ 31
  | .readAt k numBytes position | .writeAt k _ numBytes position =>
      (∃ f, s.opened k = some f) ∧ position + numBytes < 2 ^ 31
  | .openAs _ _ | .close _ | .mount => True

end Nachos.FileSys

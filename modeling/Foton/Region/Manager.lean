import Foton.Lib.Async
import Foton.Lib.ByteFile
import Foton.Lib.Run
import Foton.Region.Alloc

/-!
# The region manager

Every operation holds the lock on the regions map from end to end, so a run of
the manager is a sequence of operations. What an operation meets at its await
points (success, an error, cancellation, how much of a write reached the file)
is its script. A crash between two file writes leaves the file as a cancelled
operation does.

A region is its file, if there is one, and its handle, if it is in the map. Two
fields are history, which no operation reads: the last table a handle of this
region held, and what each table entry was created with, on disk and in memory.
-/

namespace Foton

/-! ## Region files -/

structure RegionHandle where
  header : RegionHeader
  loadedChunkCount : Nat
  headerDirty : Bool
  fileSectors : UInt32

def fileHeaderBytes : List UInt8 :=
  regionMagic ++ [UInt8.ofNat (formatVersion.toNat % 256), UInt8.ofNat (formatVersion.toNat / 256), 0, 0]

/-- What `create_region` writes. -/
def newRegionBytes : List UInt8 := fileHeaderBytes ++ RegionHeader.new.toBytes

namespace ByteFile

def sectors (f : ByteFile) : Nat := (f.len + (sectorSize - 1)) / sectorSize

/-- The chunk table as it is on disk. -/
def table (f : ByteFile) : Option RegionHeader :=
  match f.read fileHeaderSize chunkTableSize with
  | none => none
  | some bytes => (RegionHeader.fromBytes bytes).toOption

def readChunkData (f : ByteFile) (sectorOffset size : UInt32) : Option (List UInt8) :=
  f.read (sectorOffset.toNat * sectorSize) size.toNat

/-- The bytes an entry points at. -/
def payload (f : ByteFile) (e : ChunkEntry) : Option (List UInt8) :=
  f.readChunkData e.sectorOffset e.sizeBytes

/-- The bytes each existing entry of the table points at. -/
def payloads (f : ByteFile) (i : Fin chunksPerRegion) : Option (List UInt8) :=
  f.table.bind fun t => if (t.get i).exists' then f.payload (t.get i) else none

end ByteFile

def unexpectedEof : IoError := ⟨.unexpectedEof, "failed to fill whole buffer"⟩

/-- The checks of `open_region` on an existing file; `none` is a version mismatch. -/
def readRegion (f : ByteFile) : Except IoError (Option RegionHandle) :=
  match f.read 0 fileHeaderSize with
  | none => .error unexpectedEof
  | some headerBytes =>
    if headerBytes.take 4 ≠ regionMagic then .error (invalidData "Invalid region file magic")
    else if (headerBytes.drop 4).take 2 ≠ (fileHeaderBytes.drop 4).take 2 then .ok none
    else if f.len > maxRegionFileSize then
      .error (invalidData ("region file is " ++ toString f.len ++ " bytes, exceeding the format limit of " ++
        toString maxRegionFileSize ++ " bytes"))
    else
      match f.read fileHeaderSize chunkTableSize with
      | none => .error unexpectedEof
      | some tableBytes =>
        match RegionHeader.fromBytes tableBytes with
        | .error index =>
          .error (invalidData ("region chunk table entry " ++ toString index ++ " has an invalid status byte"))
        | .ok header =>
          match validateRegionEntries header (UInt32.ofNat f.sectors) with
          | .error e => .error e
          | .ok () => .ok (some ⟨header, 0, false, UInt32.ofNat f.sectors⟩)

/-! ## One region -/

structure Region where
  file : Option ByteFile
  handle : Option RegionHandle
  lastTable : Option RegionHeader
  ledger : CommitStore (Fin chunksPerRegion) (List UInt8)

namespace Region

def start (file : Option ByteFile) : Region :=
  ⟨file, none, none, .found fun i => file.bind fun f => f.payloads i⟩

def writeFile (s : Region) (off : Nat) (bytes : List UInt8) : Region :=
  { s with file := s.file.map fun f => f.write off bytes }

/-- The table of `header` reaches the file. -/
def writeTable (header : RegionHeader) (s : Region) : Region :=
  { s.writeFile fileHeaderSize header.toBytes with ledger := s.ledger.commit }

/-- A handle just read from the file, or just made, goes into the map. -/
def insertOpened (handle : RegionHandle) (s : Region) : Region :=
  { s with handle := some handle, lastTable := some handle.header, ledger := s.ledger.reload }

def insert (handle : RegionHandle) (s : Region) : Region := { s with handle := some handle }

def remove (s : Region) : Region := { s with handle := none }

def mapHandle (f : RegionHandle → RegionHandle) (s : Region) : Region := { s with handle := s.handle.map f }

/-- The file is made anew, with the first `n` bytes of an empty region. -/
def makeFile (n : Nat) (s : Region) : Region :=
  { s with file := some (ByteFile.empty.write 0 (newRegionBytes.take n)), ledger := .empty }

def removeFile (s : Region) : Region := { s with file := none, ledger := .empty }

/-- Slot `index` gets `entry`, which was made for `payload`. -/
def setPendingHeaderEntry (index : Fin chunksPerRegion) (entry : ChunkEntry) (payload : Option (List UInt8))
    (s : Region) : Region :=
  { s with
    handle := s.handle.map fun handle =>
      { handle with header := handle.header.set index entry, headerDirty := true }
    lastTable := s.handle.map fun handle => handle.header.set index entry
    ledger := s.ledger.put index payload }

end Region

/-! ## Scripts -/

/-- How opening a region goes: reading the file that is there, moving an incompatible one
aside, making a new one. What is left of the last two when they stop early is part of it. -/
structure Opening where
  access : Fate IoError
  backup : Fate IoError
  movedAside : Bool
  create : Fate IoError
  made : Option Nat

/-- How a chunk write goes: when it stops early, how many bytes reached the file and
whether `file_sectors` was raised before it stopped. -/
structure ChunkWrite where
  fate : Fate IoError
  landed : Nat
  grown : Bool

/-- How a table write goes: when it stops early, whether the table reached the file. -/
structure TableWrite where
  fate : Fate IoError
  landed : Bool

/-! ## Operations on one region -/

abbrev RegionM (α : Type) : Type := Async Region IoError α

open Async

def createRegion (o : Opening) : RegionM RegionHandle := do
  effect o.create (Region.makeFile newRegionBytes.length)
    (match o.made with | some n => Region.makeFile n | none => id)
  return ⟨RegionHeader.new, 0, false, firstDataSector⟩

def backupIncompatibleRegion (o : Opening) : RegionM Unit :=
  effect o.backup Region.removeFile (if o.movedAside then Region.removeFile else id)

def openRegion (o : Opening) : RegionM RegionHandle := do
  let s ← get
  match s.file with
  | none => createRegion o
  | some f =>
    await o.access
    match readRegion f with
    | .error e => throw e
    | .ok (some handle) => return handle
    | .ok none =>
      backupIncompatibleRegion o
      createRegion o

/-- The region's handle, opened first when it is not in the map. -/
def getOrOpen (o : Opening) : RegionM RegionHandle := do
  let s ← get
  match s.handle with
  | some handle => return handle
  | none =>
    let handle ← openRegion o
    modify (Region.insertOpened handle)
    return handle

def writeHeader (w : TableWrite) (header : RegionHeader) : RegionM Unit :=
  effect w.fate (Region.writeTable header) (if w.landed then Region.writeTable header else id)

def padded (data : List UInt8) : List UInt8 :=
  data ++ List.replicate ((sectorSize - data.length % sectorSize) % sectorSize) 0

def sectorsOf (data : List UInt8) : Nat := (data.length + (sectorSize - 1)) / sectorSize

/-- `bytes` at a sector, and `file_sectors` raised to `endSector`. -/
def Region.writeSectors (sectorOffset endSector : UInt32) (bytes : List UInt8) (s : Region) : Region :=
  (s.writeFile (sectorOffset.toNat * sectorSize) bytes).mapHandle fun handle =>
    { handle with fileSectors := max handle.fileSectors endSector }

def writeChunkData (w : ChunkWrite) (sectorOffset : UInt32) (data : List UInt8) : RegionM Unit :=
  if sectorsOf data ≥ 2 ^ 32 then
    throw ⟨.invalidInput, "chunk data sector count exceeds the region format"⟩
  else if sectorOffset.toNat + sectorsOf data ≥ 2 ^ 32 then
    throw ⟨.invalidInput, "chunk data sector range exceeds the region format"⟩
  else
    let endSector := sectorOffset + UInt32.ofNat (sectorsOf data)
    effect w.fate (Region.writeSectors sectorOffset endSector (padded data)) fun s =>
      if w.grown then s.writeSectors sectorOffset endSector ((padded data).take w.landed)
      else s.writeFile (sectorOffset.toNat * sectorSize) ((padded data).take w.landed)

structure SaveScript where
  opening : Opening
  chunk : ChunkWrite
  table : TableWrite

/-- The length check of `encode_chunk` on the compressed chunk. -/
def encodeChunk (compressed : List UInt8) : RegionM Unit :=
  if compressed.length > maxChunkSize then
    throw (invalidData ("Chunk too large: " ++ toString compressed.length ++ " bytes (max " ++
      toString maxChunkSize ++ ")"))
  else return ()

def saveChunkData (c : SaveScript) (index : Fin chunksPerRegion) (compressed : List UInt8)
    (status : ChunkStatus) : RegionM Bool := do
  encodeChunk compressed
  let s ← get
  let weOpenedRegion := s.handle.isNone
  let handle ← getOrOpen c.opening
  let sectorsNeeded := UInt32.ofNat (sectorsOf compressed)
  let sectorOffset := handle.header.findFreeSectors sectorsNeeded handle.fileSectors
  let lastUse := weOpenedRegion && handle.loadedChunkCount == 0
  match ← attempt (writeChunkData c.chunk sectorOffset compressed) with
  | .error e =>
    if lastUse then modify Region.remove
    throw e
  | .ok () =>
    let entry : ChunkEntry := ⟨sectorOffset, UInt32.ofNat compressed.length, status⟩
    modify (Region.setPendingHeaderEntry index entry (some compressed))
    if lastUse then
      writeHeader c.table (handle.header.set index entry)
      modify fun s => (s.mapHandle fun handle => { handle with headerDirty := false }).remove
    return true

def acquireChunk (o : Opening) (index : Fin chunksPerRegion) : RegionM Bool := do
  let handle ← getOrOpen o
  modify (Region.mapHandle fun handle => { handle with loadedChunkCount := handle.loadedChunkCount + 1 })
  return (handle.header.get index).exists'

def releaseChunk (w : TableWrite) : RegionM Unit := do
  let s ← get
  match s.handle with
  | none => return ()
  | some handle =>
    let handle := { handle with loadedChunkCount := handle.loadedChunkCount - 1 }
    modify (Region.insert handle)
    if handle.loadedChunkCount = 0 then
      -- out of the map first: an error puts the handle back, cancellation does not
      modify Region.remove
      if handle.headerDirty then
        match ← attempt (writeHeader w handle.header) with
        | .error e =>
          modify (Region.insert handle)
          throw e
        | .ok () => return ()

/-- The part of `load_chunk` under the lock: the compressed chunk and its entry. -/
def loadChunk (read : Fate IoError) (index : Fin chunksPerRegion) :
    RegionM (Option (List UInt8 × ChunkEntry)) := do
  let s ← get
  match s.handle with
  | none => return none
  | some handle =>
    let entry := handle.header.get index
    if entry.exists' then
      match validateChunkEntry entry handle.fileSectors with
      | .error e => throw e
      | .ok () =>
        await read
        match s.file.bind fun f => f.readChunkData entry.sectorOffset entry.sizeBytes with
        | none => throw unexpectedEof
        | some compressed => return some (compressed, entry)
    else return none

structure ClearScript where
  quarantine : Fate IoError
  table : TableWrite

def clearCorruptChunkIfUnchanged (c : ClearScript) (index : Fin chunksPerRegion) (expectedEntry : ChunkEntry) :
    RegionM Bool := do
  let s ← get
  match s.handle with
  | none => throw ⟨.other, "region was released while clearing corrupt chunk data"⟩
  | some handle =>
    if handle.header.get index = expectedEntry then
      await c.quarantine
      modify (Region.setPendingHeaderEntry index .empty none)
      writeHeader c.table (handle.header.set index .empty)
      modify (Region.mapHandle fun handle => { handle with headerDirty := false })
      return true
    else return false

/-- The body of the loop of `flush_all`. -/
def flushRegion (w : TableWrite) : RegionM Unit := do
  let s ← get
  match s.handle with
  | none => return ()
  | some handle =>
    if handle.headerDirty then
      writeHeader w handle.header
      modify (Region.mapHandle fun handle => { handle with headerDirty := false })

/-! ## The manager -/

abbrev RegionManager : Type := RegionPos → Region

namespace RegionManager

def start (files : RegionPos → Option ByteFile) : RegionManager := fun r => .start (files r)

def at' {α : Type} (r : RegionPos) (m : RegionM α) : Async RegionManager IoError α := fun regions =>
  ((m (regions r)).1, Function.update regions r (m (regions r)).2)

def flushAll : List (RegionPos × TableWrite) → Async RegionManager IoError Unit
  | [] => return ()
  | (r, w) :: rest => do
    at' r (flushRegion w)
    flushAll rest

/-- The loop of `close_all` over the handles taken from the map. -/
def closeTaken : List (RegionPos × RegionHandle × TableWrite) → Option IoError →
    Async RegionManager IoError (Option IoError)
  | [], firstError => return firstError
  | (r, handle, w) :: rest, firstError => do
    if handle.headerDirty then
      match ← attempt (at' r (writeHeader w handle.header)) with
      | .ok () => closeTaken rest firstError
      | .error e =>
        at' r (modify (Region.insert handle))
        closeTaken rest (firstError.or (some e))
    else closeTaken rest firstError

def closeAll (order : List (RegionPos × TableWrite)) : Async RegionManager IoError Unit := do
  let regions ← get
  modify fun regions r => (regions r).remove
  let taken := order.filterMap fun (r, w) => (regions r).handle.map fun handle => (r, handle, w)
  match ← closeTaken taken none with
  | none => return ()
  | some e => throw e

end RegionManager

/-! ## Runs -/

/-- A compressed chunk: the encoder never returns nothing. -/
structure Frame where
  bytes : List UInt8
  ne_nil : bytes ≠ []

inductive RegionOp where
  | saveChunkData (pos : ChunkPos) (compressed : Frame) (status : ChunkStatus) (script : SaveScript)
  | acquireChunk (pos : ChunkPos) (opening : Opening)
  | releaseChunk (pos : ChunkPos) (table : TableWrite)
  | loadChunk (pos : ChunkPos) (read : Fate IoError)
  | clearCorruptChunkIfUnchanged (r : RegionPos) (index : Fin chunksPerRegion) (expectedEntry : ChunkEntry)
      (script : ClearScript)
  | flushAll (order : List (RegionPos × TableWrite))
  | closeAll (order : List (RegionPos × TableWrite))

namespace RegionManager

/-- The regions in the map, in the order it is walked. -/
def Enumerates (order : List (RegionPos × TableWrite)) (m : RegionManager) : Prop :=
  (order.map Prod.fst).Nodup ∧ ∀ r, r ∈ order.map Prod.fst ↔ (m r).handle.isSome

/-- The state an operation leaves. -/
def exec (m : RegionManager) : RegionOp → RegionManager
  | .saveChunkData pos compressed status script =>
    (at' (.fromChunk pos) (Foton.saveChunkData script (RegionHeader.slot pos) compressed.bytes status) m).2
  | .acquireChunk pos opening => (at' (.fromChunk pos) (Foton.acquireChunk opening (RegionHeader.slot pos)) m).2
  | .releaseChunk pos table => (at' (.fromChunk pos) (Foton.releaseChunk table) m).2
  | .loadChunk pos read => (at' (.fromChunk pos) (Foton.loadChunk read (RegionHeader.slot pos)) m).2
  | .clearCorruptChunkIfUnchanged r index expectedEntry script =>
    (at' r (Foton.clearCorruptChunkIfUnchanged script index expectedEntry) m).2
  | .flushAll order => (flushAll order m).2
  | .closeAll order => (closeAll order m).2

def Admissible (m : RegionManager) : RegionOp → Prop
  | .flushAll order | .closeAll order => Enumerates order m
  | _ => True

def Step (m : RegionManager) (op : RegionOp) (m' : RegionManager) : Prop := Admissible m op ∧ m' = m.exec op

end RegionManager

end Foton

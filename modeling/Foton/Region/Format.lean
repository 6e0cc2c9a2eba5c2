import Foton.Chunk.Basic
import Mathlib.Data.List.Sort
import Mathlib.Data.UInt

/-!
# The region file format

A region file is a file header of eight bytes, a table of 1024 chunk entries of
eight bytes each, and chunk payloads in sectors of 4096 bytes from sector 3 on.
An entry holds a sector offset in 32 bits, a payload size in 24 bits and a
status byte.
-/

namespace Foton

def regionSize : Nat := 32
def chunksPerRegion : Nat := regionSize * regionSize
def sectorSize : Nat := 4096
def fileHeaderSize : Nat := 8
def chunkTableSize : Nat := chunksPerRegion * 8
def firstDataSector : UInt32 := 3
def maxChunkSize : Nat := 16 * 1024 * 1024
def maxRegionFileSize : Nat := (2 ^ 32 - 1) * sectorSize
def regionMagic : List UInt8 := [83, 84, 76, 82]
def formatVersion : UInt16 := 23

/-! ## Errors -/

inductive ErrorKind where
  | invalidData
  | invalidInput
  | unexpectedEof
  | other
  deriving DecidableEq, Repr

structure IoError where
  kind : ErrorKind
  message : String
  deriving DecidableEq, Repr

def invalidData (message : String) : IoError := ⟨.invalidData, message⟩

/-! ## Little-endian fields -/

/-- Byte `k` of `to_le_bytes`. -/
def leByte (n : UInt32) (k : Nat) : UInt8 := UInt8.ofNat (n.toNat / 256 ^ k)

/-- `u32::from_le_bytes`. -/
def ofLeBytes (b0 b1 b2 b3 : UInt8) : UInt32 :=
  UInt32.ofNat (b0.toNat + 256 * b1.toNat + 65536 * b2.toNat + 16777216 * b3.toNat)

theorem ofLeBytes_leByte (n : UInt32) : ofLeBytes (leByte n 0) (leByte n 1) (leByte n 2) (leByte n 3) = n := by
  have hn := n.toNat_lt
  apply UInt32.toNat_inj.mp
  simp only [ofLeBytes, leByte, UInt32.toNat_ofNat', UInt8.toNat_ofNat']
  omega

/-- Three of the four bytes keep the value below `2 ^ 24`. -/
theorem ofLeBytes_leByte_24 (n : UInt32) :
    (ofLeBytes (leByte n 0) (leByte n 1) (leByte n 2) 0).toNat = n.toNat % 2 ^ 24 := by
  have hn := n.toNat_lt
  simp only [ofLeBytes, leByte, UInt32.toNat_ofNat', UInt8.toNat_ofNat', UInt8.toNat_zero]
  omega

/-! ## Chunk entries -/

structure ChunkEntry where
  sectorOffset : UInt32
  sizeBytes : UInt32
  status : ChunkStatus
  deriving DecidableEq, Repr

namespace ChunkEntry

def exists' (e : ChunkEntry) : Bool := e.sectorOffset != 0

def empty : ChunkEntry := ⟨0, 0, .empty⟩

def sectorCount (e : ChunkEntry) : UInt32 :=
  if e.sizeBytes = 0 then 0 else UInt32.ofNat ((e.sizeBytes.toNat + (sectorSize - 1)) / sectorSize)

def toBytes (e : ChunkEntry) : List UInt8 :=
  [leByte e.sectorOffset 0, leByte e.sectorOffset 1, leByte e.sectorOffset 2, leByte e.sectorOffset 3,
    leByte e.sizeBytes 0, leByte e.sizeBytes 1, leByte e.sizeBytes 2, UInt8.ofNat e.status.getIndex]

/-- Reads eight bytes; a list of another length is no value of the source's array type. -/
def fromBytes : List UInt8 → Option ChunkEntry
  | [b0, b1, b2, b3, b4, b5, b6, b7] =>
    let sectorOffset := ofLeBytes b0 b1 b2 b3
    let sizeBytes := ofLeBytes b4 b5 b6 0
    if sectorOffset = 0 then some ⟨sectorOffset, sizeBytes, .empty⟩
    else (ChunkStatus.fromIndex b7.toNat).map fun status => ⟨sectorOffset, sizeBytes, status⟩
  | _ => none

/-- What an entry comes back as: its size loses the bits above the 24th, and a
slot without a chunk loses its status. -/
def reloaded (e : ChunkEntry) : ChunkEntry :=
  ⟨e.sectorOffset, UInt32.ofNat (e.sizeBytes.toNat % 2 ^ 24), if e.exists' then e.status else .empty⟩

theorem exists'_iff (e : ChunkEntry) : e.exists' = true ↔ e.sectorOffset ≠ 0 := by simp [exists']

theorem empty_exists' : empty.exists' = false := rfl

theorem fromBytes_toBytes (e : ChunkEntry) : fromBytes e.toBytes = some e.reloaded := by
  have hsize : ofLeBytes (leByte e.sizeBytes 0) (leByte e.sizeBytes 1) (leByte e.sizeBytes 2) 0 =
      UInt32.ofNat (e.sizeBytes.toNat % 2 ^ 24) := by
    apply UInt32.toNat_inj.mp
    rw [ofLeBytes_leByte_24, UInt32.toNat_ofNat']
    omega
  have hstatus : (UInt8.ofNat e.status.getIndex).toNat = e.status.getIndex := by
    rw [UInt8.toNat_ofNat']; exact Nat.mod_eq_of_lt e.status.getIndex_lt
  simp only [toBytes, fromBytes, ofLeBytes_leByte, hsize, hstatus, ChunkStatus.fromIndex_getIndex, reloaded]
  by_cases h : e.sectorOffset = 0 <;> simp [exists', h]

theorem toBytes_length (e : ChunkEntry) : e.toBytes.length = 8 := rfl

theorem toNat_sectorCount (e : ChunkEntry) :
    e.sectorCount.toNat = (e.sizeBytes.toNat + 4095) / 4096 := by
  have h := e.sizeBytes.toNat_lt
  unfold sectorCount sectorSize
  split
  · rename_i h0; rw [h0]; rfl
  · rw [UInt32.toNat_ofNat']; omega

/-- A reloaded entry covers the sectors it covered, when its size fits 24 bits. -/
theorem reloaded_of_lt {e : ChunkEntry} (hx : e.exists' = true) (h : e.sizeBytes.toNat < 2 ^ 24) :
    e.reloaded = e := by
  unfold reloaded
  rw [Nat.mod_eq_of_lt h, if_pos hx, UInt32.ofNat_toNat]

/-- First sector of the entry. -/
def start (e : ChunkEntry) : Nat := e.sectorOffset.toNat

/-- First sector after the entry. -/
def stop (e : ChunkEntry) : Nat := e.sectorOffset.toNat + e.sectorCount.toNat

theorem start_le_stop (e : ChunkEntry) : e.start ≤ e.stop := Nat.le_add_right _ _

end ChunkEntry

/-! ## Region positions -/

structure RegionPos where
  x : Int32
  z : Int32
  deriving DecidableEq, Repr

namespace RegionPos

/-- `div_euclid` by the region size. -/
def fromChunk (pos : ChunkPos) : RegionPos :=
  ⟨Int32.ofInt (pos.x.toInt / regionSize), Int32.ofInt (pos.z.toInt / regionSize)⟩

/-- `rem_euclid` by the region size. -/
def localChunkPos (pos : ChunkPos) : Nat × Nat :=
  ((pos.x.toInt % regionSize).toNat, (pos.z.toInt % regionSize).toNat)

end RegionPos

/-! ## The chunk table -/

structure RegionHeader where
  entries : Vector ChunkEntry chunksPerRegion

namespace RegionHeader

def new : RegionHeader := ⟨Vector.replicate _ .empty⟩

def chunkIndex (localX localZ : Nat) : Nat := localZ * regionSize + localX

theorem chunkIndex_lt (pos : ChunkPos) :
    chunkIndex (RegionPos.localChunkPos pos).1 (RegionPos.localChunkPos pos).2 < chunksPerRegion := by
  have hx := Int.emod_lt_of_pos pos.x.toInt (show (0 : Int) < 32 by decide)
  have hz := Int.emod_lt_of_pos pos.z.toInt (show (0 : Int) < 32 by decide)
  simp only [chunkIndex, RegionPos.localChunkPos, chunksPerRegion, regionSize]
  omega

/-- The table slot of a chunk. -/
def slot (pos : ChunkPos) : Fin chunksPerRegion :=
  ⟨chunkIndex (RegionPos.localChunkPos pos).1 (RegionPos.localChunkPos pos).2, chunkIndex_lt pos⟩

def toBytes (h : RegionHeader) : List UInt8 := h.entries.toList.flatMap ChunkEntry.toBytes

/-- Entry `i` of a table given as bytes. -/
def entryAt (bytes : List UInt8) (i : Nat) : Option ChunkEntry :=
  ChunkEntry.fromBytes ((bytes.drop (i * 8)).take 8)

/-- Reads a table, or names the first entry that does not decode. -/
def fromBytes (bytes : List UInt8) : Except Nat RegionHeader :=
  match (List.range chunksPerRegion).find? fun i => (entryAt bytes i).isNone with
  | some i => .error i
  | none => .ok ⟨Vector.ofFn fun i => (entryAt bytes i).getD .empty⟩

/-- The entries of `entries` in table order. -/
def list (h : RegionHeader) : List ChunkEntry := h.entries.toList

def set (h : RegionHeader) (i : Fin chunksPerRegion) (e : ChunkEntry) : RegionHeader :=
  ⟨h.entries.set i e⟩

def get (h : RegionHeader) (i : Fin chunksPerRegion) : ChunkEntry := h.entries[i]

theorem ext_get {h h' : RegionHeader} (he : ∀ i, h.get i = h'.get i) : h = h' := by
  obtain ⟨v⟩ := h
  obtain ⟨v'⟩ := h'
  congr 1
  exact Vector.ext fun i hi => he ⟨i, hi⟩

@[simp] theorem get_set (h : RegionHeader) (i j : Fin chunksPerRegion) (e : ChunkEntry) :
    (h.set i e).get j = if i = j then e else h.get j := by
  simp [get, set, Vector.getElem_set, Fin.ext_iff]

@[simp] theorem get_new (i : Fin chunksPerRegion) : new.get i = .empty := by simp [get, new]

theorem mem_list {h : RegionHeader} {e : ChunkEntry} : e ∈ h.list ↔ ∃ i, h.get i = e := by
  simp only [list, get, Vector.mem_toList_iff, Vector.mem_iff_getElem]
  constructor
  · rintro ⟨i, hi, rfl⟩; exact ⟨⟨i, hi⟩, rfl⟩
  · rintro ⟨i, rfl⟩; exact ⟨i, i.2, rfl⟩

theorem toBytes_length (h : RegionHeader) : h.toBytes.length = chunkTableSize := by
  simp [toBytes, List.length_flatMap, ChunkEntry.toBytes_length, chunkTableSize]

theorem drop_flatMap_toBytes : ∀ (l : List ChunkEntry) (i : Nat) (hi : i < l.length),
    ((l.flatMap ChunkEntry.toBytes).drop (i * 8)).take 8 = l[i].toBytes
  | e :: l, 0, _ => by
    rw [List.flatMap_cons, Nat.zero_mul, List.drop_zero, List.take_append_of_le_length (by simp [ChunkEntry.toBytes_length]),
      List.take_of_length_le (by simp [ChunkEntry.toBytes_length])]
    rfl
  | e :: l, i + 1, hi => by
    rw [List.flatMap_cons, List.drop_append, List.drop_of_length_le (by rw [ChunkEntry.toBytes_length]; omega),
      List.nil_append, ChunkEntry.toBytes_length, show (i + 1) * 8 - 8 = i * 8 by omega]
    exact drop_flatMap_toBytes l i (by simpa using hi)

theorem entryAt_toBytes (h : RegionHeader) (i : Fin chunksPerRegion) :
    entryAt h.toBytes i = some (h.get i).reloaded := by
  unfold entryAt toBytes
  rw [drop_flatMap_toBytes _ i (by simp), ChunkEntry.fromBytes_toBytes]
  simp [get]

/-- What the table comes back as. -/
def reloaded (h : RegionHeader) : RegionHeader := ⟨h.entries.map ChunkEntry.reloaded⟩

@[simp] theorem get_reloaded (h : RegionHeader) (i : Fin chunksPerRegion) :
    h.reloaded.get i = (h.get i).reloaded := by simp [get, reloaded]

theorem fromBytes_toBytes (h : RegionHeader) : fromBytes h.toBytes = .ok h.reloaded := by
  have hnone : ((List.range chunksPerRegion).find? fun i => (entryAt h.toBytes i).isNone) = none := by
    rw [List.find?_eq_none]
    intro i hi
    have := entryAt_toBytes h ⟨i, List.mem_range.mp hi⟩
    simp only at this
    simp [this]
  unfold fromBytes
  rw [hnone]
  simp only [Except.ok.injEq]
  apply ext_get
  intro i
  have := entryAt_toBytes h i
  rw [get_reloaded]
  simp [get, this]

theorem fromBytes_ok {bytes : List UInt8} {h : RegionHeader} (hb : fromBytes bytes = .ok h)
    (i : Fin chunksPerRegion) : entryAt bytes i = some (h.get i) := by
  unfold fromBytes at hb
  split at hb
  · cases hb
  · rename_i hnone
    rw [List.find?_eq_none] at hnone
    have hi := hnone i (List.mem_range.mpr i.2)
    simp only [Except.ok.injEq] at hb
    subst hb
    cases h' : entryAt bytes i with
    | none => simp [h'] at hi
    | some e => simp [get, h']

/-! ## Allocation -/

/-- The first gap of `needed` sectors between the used ranges, which are sorted by
start, or the end of the file. The sum wraps as in `u32`. -/
def scanGaps (needed fileSectors : UInt32) : UInt32 → List (UInt32 × UInt32) → UInt32
  | current, [] => max current fileSectors
  | current, (start, stop) :: rest =>
    if start ≥ current + needed then current
    else scanGaps needed fileSectors (max current stop) rest

/-- The used ranges, in table order. -/
def usedRanges (h : RegionHeader) : List (UInt32 × UInt32) :=
  (h.list.filter ChunkEntry.exists').map fun e => (e.sectorOffset, e.sectorOffset + e.sectorCount)

def findFreeSectors (h : RegionHeader) (needed fileSectors : UInt32) : UInt32 :=
  if needed = 0 then firstDataSector
  else scanGaps needed fileSectors firstDataSector (h.usedRanges.mergeSort fun a b => a.1 ≤ b.1)

end RegionHeader

end Foton

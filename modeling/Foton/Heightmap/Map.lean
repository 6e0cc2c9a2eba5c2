import Foton.Lib.Highest
import Foton.Section.Runs
import Mathlib.Data.Finset.SDiff

/-!
# Heightmaps

A heightmap holds for each column the height of its highest block of a kind,
relative to the bottom of the world. The final maps are updated with each block
that is set; missing maps are primed from the sections, layer by layer.
-/

namespace Foton

inductive HeightmapType where
  | worldSurface
  | motionBlocking
  | motionBlockingNoLeaves
  | oceanFloor
  | worldSurfaceWg
  | oceanFloorWg
  deriving DecidableEq

/-- What the registry says of a block state. -/
structure HeightmapTraits where
  isAir : Bool
  blocksMotion : Bool
  hasFluid : Bool
  isLeaves : Bool

/-- The bits of a mask, one for each type. -/
abbrev HeightmapMask : Type := Finset HeightmapType

section Opacity

variable (traits : BlockStateId → HeightmapTraits)

def worldSurfaceOpacityMask (state : BlockStateId) : HeightmapMask :=
  if (traits state).isAir then ∅ else {.worldSurface, .worldSurfaceWg}

def stateOpacityMask (state : BlockStateId) : HeightmapMask :=
  if (traits state).isAir then ∅
  else
    {.worldSurface, .worldSurfaceWg} ∪
      (if (traits state).blocksMotion then {.oceanFloor, .oceanFloorWg} else ∅) ∪
      if (traits state).blocksMotion || (traits state).hasFluid then
        if (traits state).isLeaves then {.motionBlocking} else {.motionBlocking, .motionBlockingNoLeaves}
      else ∅

def heightmapOpacityMask (state : BlockStateId) (requestedMask : HeightmapMask) : HeightmapMask :=
  if requestedMask ⊆ {.worldSurface, .worldSurfaceWg} then worldSurfaceOpacityMask traits state ∩ requestedMask
  else stateOpacityMask traits state ∩ requestedMask

end Opacity

namespace HeightmapType

def finalTypes : List HeightmapType := [worldSurface, motionBlocking, motionBlockingNoLeaves, oceanFloor]

def mask (t : HeightmapType) : HeightmapMask := {t}

def isOpaque (traits : BlockStateId → HeightmapTraits) (t : HeightmapType) (state : BlockStateId) : Bool :=
  heightmapOpacityMask traits state t.mask ≠ ∅

end HeightmapType

structure Heightmap where
  data : Vector UInt16 256
  mapType : HeightmapType
  minY : Int
  height : Int

namespace Heightmap

def new (mapType : HeightmapType) (minY height : Int) : Heightmap := ⟨Vector.replicate 256 0, mapType, minY, height⟩

def getIndex (localX localZ : Fin 16) : Fin 256 := ⟨localX + localZ * 16, by omega⟩

def getFirstAvailable (m : Heightmap) (localX localZ : Fin 16) : Int := m.data[getIndex localX localZ].toNat + m.minY

/-- A height is kept in sixteen bits. -/
def setHeight (m : Heightmap) (localX localZ : Fin 16) (height : Int) : Heightmap :=
  { m with data := m.data.set (getIndex localX localZ) (UInt16.ofInt (height - m.minY)) }

/-- The highest of `count` places from `minY` on where `p` holds. -/
def scanDown (p : Int → Bool) (minY : Int) : Nat → Option Int
  | 0 => none
  | count + 1 => if p (minY + count) then some (minY + count) else scanDown p minY count

def update (traits : BlockStateId → HeightmapTraits) (m : Heightmap) (localX : Fin 16) (y : Int) (localZ : Fin 16)
    (state : BlockStateId) (getBlock : Fin 16 → Int → Fin 16 → BlockStateId) : Heightmap × Bool :=
  let firstAvailable := m.getFirstAvailable localX localZ
  if y ≤ firstAvailable - 2 then (m, false)
  else if m.mapType.isOpaque traits state then
    if y ≥ firstAvailable then (m.setHeight localX localZ (y + 1), true) else (m, false)
  else if firstAvailable - 1 = y then
    match scanDown (fun scanY => m.mapType.isOpaque traits (getBlock localX scanY localZ)) m.minY (y - m.minY).toNat with
    | some scanY => (m.setHeight localX localZ (scanY + 1), true)
    | none => (m.setHeight localX localZ m.minY, true)
  else (m, false)

end Heightmap

abbrev ChunkHeightmaps : Type := HeightmapType → Option Heightmap

namespace ChunkHeightmaps

def empty : ChunkHeightmaps := fun _ => none

def getOrInsert (maps : ChunkHeightmaps) (t : HeightmapType) (minY height : Int) : ChunkHeightmaps :=
  Function.update maps t (some ((maps t).getD (.new t minY height)))

/-- Fails when a final map is missing. -/
def updateFinal (traits : BlockStateId → HeightmapTraits) (maps : ChunkHeightmaps) (localX : Fin 16) (y : Int)
    (localZ : Fin 16) (state : BlockStateId) (getBlock : Fin 16 → Int → Fin 16 → BlockStateId) : Option ChunkHeightmaps :=
  HeightmapType.finalTypes.foldlM (fun maps t => do
    let m ← maps t
    some (Function.update maps t (some (m.update traits localX y localZ state getBlock).1))) maps

def setPrimedHeight (maps : ChunkHeightmaps) (t : HeightmapType) (localX localZ : Fin 16) (height : Int) : ChunkHeightmaps :=
  Function.update maps t ((maps t).map fun m => m.setHeight localX localZ height)

end ChunkHeightmaps

/-! ## Priming -/

def columnX (column : Fin 256) : Fin 16 := ⟨column % 16, by omega⟩

def columnZ (column : Fin 256) : Fin 16 := ⟨column / 16, by omega⟩

structure PrimeState where
  maps : ChunkHeightmaps
  pendingMasks : Vector HeightmapMask 256
  pendingColumns : Nat

namespace PrimeState

variable (traits : BlockStateId → HeightmapTraits) (types : List (HeightmapType × HeightmapMask)) (minY : Int)

/-- One cell of a layer; `cell` has the states of the layer. -/
def primeColumn (y : Int) (cell : Fin 256 → BlockStateId) (s : PrimeState) (column : Fin 256) : PrimeState :=
  have hcolumn : (column : Nat) < 256 := column.isLt
  let pendingMask := s.pendingMasks[column]
  if pendingMask = ∅ then s
  else
    let matchedMask := heightmapOpacityMask traits (cell column) pendingMask
    if matchedMask = ∅ then s
    else
      let left := pendingMask \ matchedMask
      { maps := types.foldl (fun maps e =>
          if matchedMask ∩ e.2 ≠ ∅ then maps.setPrimedHeight e.1 (columnX column) (columnZ column) (y + 1) else maps) s.maps
        pendingMasks := s.pendingMasks.set column left
        pendingColumns := if left = ∅ then s.pendingColumns - 1 else s.pendingColumns }

/-- A layer; once no column is pending the whole scan has ended. -/
def primeLayer (sectionIdx : Nat) (states : BlockPalette) (s : PrimeState) (localY : Fin 16) : PrimeState :=
  if s.pendingColumns = 0 then s
  else
    (List.finRange 256).foldl (primeColumn traits types (minY + (sectionIdx * 16 + localY : Nat))
      fun column => states.get (columnX column) localY (columnZ column)) s

def isHomogeneousAir (states : BlockPalette) : Bool :=
  match states with
  | .homogeneous state => (traits state).isAir
  | _ => false

def primeSection (s : PrimeState) (e : ChunkSection × Nat) : PrimeState :=
  if isHomogeneousAir traits e.1.states then s
  else (List.finRange 16).reverse.foldl (primeLayer traits types minY e.2 e.1.states) s

end PrimeState

namespace ChunkHeightmaps

def primeFromSections (traits : BlockStateId → HeightmapTraits) (maps : ChunkHeightmaps) (types : List HeightmapType)
    (minY height : Int) (sections : List ChunkSection) : ChunkHeightmaps :=
  let typesToPrime := (types.filter fun t => (maps t).isNone).map fun t => (t, t.mask)
  if typesToPrime = [] then maps
  else
    let maps := typesToPrime.foldl (fun maps e => maps.getOrInsert e.1 minY height) maps
    let pendingMaskBase := typesToPrime.foldl (fun mask e => mask ∪ e.2) ∅
    (sections.zipIdx.reverse.foldl (PrimeState.primeSection traits typesToPrime minY)
      ⟨maps, Vector.replicate 256 pendingMaskBase, 256⟩).maps

end ChunkHeightmaps

/-! ## Full chunks -/

/-- The sections of a column of chunks from a section border on, no higher than a heightmap can tell. -/
structure ColumnStack where
  minSection : Int
  sections : List ChunkSection
  heightFits : sections.length * 16 < 2 ^ 16

namespace ColumnStack

def minY (c : ColumnStack) : Int := c.minSection * 16

def height (c : ColumnStack) : Int := c.sections.length * 16

end ColumnStack

structure HeightmapChunk where
  stack : ColumnStack
  heightmaps : ChunkHeightmaps

namespace HeightmapChunk

variable (traits : BlockStateId → HeightmapTraits) (counts : BlockStateId → BlockStateSectionCounts)

def localY (y : Int) : Fin 16 := ⟨(y % 16).toNat, by omega⟩

/-- The cell at a height above the bottom of the world; the sections reach further than any scan. -/
def sectionReader (sections : List ChunkSection) (minY : Int) (localX : Fin 16) (scanY : Int) (localZ : Fin 16) : BlockStateId :=
  match sections[((scanY - minY) / 16).toNat]? with
  | some section' => section'.states.get localX (localY (scanY - minY)) localZ
  | none => ⟨0⟩

/-- Sets a block and updates the final heightmaps; a height outside the world and the state that is there change nothing. -/
def setBlockState (c : HeightmapChunk) (localX : Fin 16) (y : Int) (localZ : Fin 16) (state : BlockStateId) : Option HeightmapChunk :=
  if y < c.stack.minY ∨ y ≥ c.stack.minY + c.stack.height then some c
  else
    let sectionIndex := ((y - c.stack.minY) / 16).toNat
    match c.stack.sections[sectionIndex]? with
    | none => some c
    | some section' =>
      if section'.states.get localX (localY y) localZ = state then some c
      else do
        let (_, changed) ← section'.setBlockState counts localX (localY y) localZ state
        let sections := c.stack.sections.set sectionIndex changed
        let heightmaps ← c.heightmaps.updateFinal traits localX y localZ state (sectionReader sections c.stack.minY)
        some ⟨{ c.stack with
          sections := sections
          heightFits := by rw [List.length_set]; exact c.stack.heightFits }, heightmaps⟩

end HeightmapChunk

end Foton

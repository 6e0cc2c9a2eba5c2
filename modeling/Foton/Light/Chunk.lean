import Foton.Light.Propagation

/-!
# Lighting a chunk

The center chunk is reset and its sources are seeded. Then its light is spread
and the horizontal edges are checked against the neighbors, or the levels of
the neighbors' edges are pulled in. Every section has light data.
-/

namespace Foton.Light

inductive BlockLightChunkEdgeChecks where
  /-- Validate this chunk's horizontal edges against neighbors. -/
  | required
  /-- Trust existing neighboring light and pull initialized edge levels inward. -/
  | skipped
  deriving DecidableEq

/-! ## Edges -/

/-- Where a scan starts, and how it goes on. -/
structure EdgeScan where
  incrementX : Int
  incrementZ : Int
  startX : Int
  startZ : Int

def currentEdgeScan (chunk : ChunkPos) (d : LightAxisDirection) : EdgeScan :=
  if d.offset.1 ≠ 0 then ⟨0, 1, if d.offset.1 < 0 then chunk.x * 16 else chunk.x * 16 + 15, chunk.z * 16⟩
  else ⟨1, 0, chunk.x * 16, if d.offset.2.2 < 0 then chunk.z * 16 else chunk.z * 16 + 15⟩

def neighborEdgeScan (chunk : ChunkPos) (d : LightAxisDirection) : EdgeScan :=
  if d.offset.1 ≠ 0 then ⟨0, 1, if d.offset.1 < 0 then chunk.x * 16 - 1 else chunk.x * 16 + 16, chunk.z * 16⟩
  else ⟨1, 0, chunk.x * 16, if d.offset.2.2 < 0 then chunk.z * 16 - 1 else chunk.z * 16 + 16⟩

/-- The positions that a scan of one section visits. -/
def EdgeScan.positions (scan : EdgeScan) (sectionY : Int) : List BlockPos :=
  (List.range 16).flatMap fun y : Nat => (List.range 16).map fun i : Nat =>
    ⟨scan.startX + i * scan.incrementX, sectionY * 16 + y, scan.startZ + i * scan.incrementZ⟩

def localBlockIndex (p : BlockPos) : Nat :=
  (p.y % 16).toNat * 256 + (p.z % 16).toNat * 16 + (p.x % 16).toNat

def blockPosFromLocalIndex (chunk : ChunkPos) (sectionY : Int) (localIndex : Nat) : BlockPos :=
  ⟨chunk.x * 16 + (localIndex % 16 : Nat), sectionY * 16 + (localIndex / 256 : Nat),
    chunk.z * 16 + (localIndex / 16 % 16 : Nat)⟩

def ChunkPos.step (chunk : ChunkPos) (d : LightAxisDirection) : ChunkPos :=
  ⟨chunk.x + d.offset.1, chunk.z + d.offset.2.2⟩

/-- The delayed checks of the two sides alternate. -/
def alternate (center neighbor : List BlockPos) : List BlockPos :=
  (List.range (max center.length neighbor.length)).flatMap fun i => center[i]?.toList ++ neighbor[i]?.toList

namespace LightCacheLayout

variable (layout : LightCacheLayout)

def inCenter (p : BlockPos) : Bool := layout.containsChunk 0 p

/-- The positions of the window outside the center chunk. -/
def outside (p : BlockPos) : Bool := layout.inside p && !layout.inCenter p

end LightCacheLayout

namespace LightWindow

variable (w : LightWindow)

/-- The loop of `calculate_light_value`, which returns early above `expect`. -/
def gatherLight (e : LightEdit) (p : BlockPos) (expect : Nat) : List LightAxisDirection → Nat → Nat
  | [], level => level
  | d :: ds, level =>
    let n := p.step d
    if !w.layout.cached n then gatherLight e p expect ds level
    else
      let neighborLevel := e.get w.layout n
      if neighborLevel - 1 ≤ level then gatherLight e p expect ds level
      else if w.blocks.lightBlockInto (w.getBlockState n) (w.getBlockState p) d.opposite (w.opacity p) = lightBlocked then
        gatherLight e p expect ds level
      else
        let level := max level (neighborLevel - w.opacity p)
        if level > expect then level else gatherLight e p expect ds level

def calculateLightValue (e : LightEdit) (p : BlockPos) (expect : Nat) : Option Nat :=
  if !w.layout.cached p then none
  else
    let level := w.emission p
    if level ≥ maxLightLevel - 1 ∨ level > expect then some level
    else if w.opacity p ≥ maxLightLevel then some level
    else some (w.gatherLight e p expect LightAxisDirection.all level)

/-- The calculated level differs from the stored one. -/
def differs (e : LightEdit) (p : BlockPos) : Bool :=
  (w.calculateLightValue e p (e.get w.layout p)).any (· ≠ e.get w.layout p)

/-- The checks that the scan of an edge delays, on both sides. -/
def delayedChecks (e : LightEdit) (chunk : ChunkPos) (sectionY : Int) (d : LightAxisDirection) : List BlockPos :=
  let scanned := ((currentEdgeScan chunk d).positions sectionY).filter fun p =>
    w.layout.cached p && w.layout.cached (p.step d)
  let center := (scanned.filter (w.differs e)).map localBlockIndex
  let neighbor := ((scanned.map (·.step d)).filter (w.differs e)).map localBlockIndex
  alternate (center.map (blockPosFromLocalIndex chunk sectionY))
    (neighbor.map (blockPosFromLocalIndex (chunk.step d) sectionY))

def checkChunkEdgeDirection (chunk : ChunkPos) (sectionY : Int) (e : LightEdit) (d : LightAxisDirection) : LightEdit :=
  (w.delayedChecks e chunk sectionY d).foldl w.checkBlock e

def checkChunkEdge (chunk : ChunkPos) (e : LightEdit) (sectionY : Int) : LightEdit :=
  LightAxisDirection.horizontal.foldl (w.checkChunkEdgeDirection chunk sectionY) e

def checkChunkEdges (fuel : Nat) (e : LightEdit) (chunk : ChunkPos) : Option LightEdit :=
  w.performLightDecrease fuel (w.layout.sectionsDown.foldl (w.checkChunkEdge chunk) e)

/-! ## Sources and neighbors -/

def seedBlockLightSource (e : LightEdit) (p : BlockPos) : LightEdit :=
  if !w.layout.cached p then e
  else
    let emitted := w.emission p
    if emitted ≤ e.get w.layout p then e
    else
      (e.enqueueIncrease w.layout ⟨p, emitted, LightAxisDirection.all, w.shapeFlags p⟩).set w.layout p emitted

def pullNeighborLevel (d : LightAxisDirection) (e : LightEdit) (p : BlockPos) : LightEdit :=
  if !w.layout.cached p then e
  else
    let level := e.get w.layout p
    if level > 1 then
      e.enqueueIncrease w.layout ⟨p, level, [d.opposite], { hasSidedTransparentBlocks := true }⟩
    else e

def propagateNeighborLevelSection (chunk : ChunkPos) (sectionY : Int) (e : LightEdit) (d : LightAxisDirection) :
    LightEdit :=
  ((neighborEdgeScan chunk d).positions sectionY).foldl (w.pullNeighborLevel d) e

def propagateNeighborLevels (e : LightEdit) (chunk : ChunkPos) : LightEdit :=
  w.layout.sectionsDown.foldl (fun e sectionY =>
    LightAxisDirection.horizontal.foldl (w.propagateNeighborLevelSection chunk sectionY) e) e

/-- The levels once the sections of the center chunk are reset. -/
def resetChunkSections (levels : BlockPos → Nat) (p : BlockPos) : Nat :=
  if w.layout.inCenter p then 0 else levels p

def propagateBlockLightChunk (fuel : Nat) (levels : BlockPos → Nat) (sources : List BlockPos)
    (edgeChecks : BlockLightChunkEdgeChecks) : Option LightEdit :=
  let e := sources.foldl w.seedBlockLightSource ⟨w.resetChunkSections levels, [], []⟩
  match edgeChecks with
  | .required => (w.performLightIncrease fuel e).bind (w.checkChunkEdges fuel · w.layout.centerChunk)
  | .skipped => w.performLightIncrease fuel (w.propagateNeighborLevels e w.layout.centerChunk)

end LightWindow

/-! ## What the scans visit -/

theorem EdgeScan.mem_positions {scan : EdgeScan} {sectionY : Int} {p : BlockPos} : p ∈ scan.positions sectionY ↔
    ∃ y : Nat, y < 16 ∧ ∃ i : Nat, i < 16 ∧
      p = ⟨scan.startX + i * scan.incrementX, sectionY * 16 + y, scan.startZ + i * scan.incrementZ⟩ := by
  simp [EdgeScan.positions, eq_comm]

theorem mem_alternate {center neighbor : List BlockPos} {p : BlockPos} :
    p ∈ alternate center neighbor ↔ p ∈ center ∨ p ∈ neighbor := by
  simp only [alternate, List.mem_flatMap, List.mem_range, List.mem_append, Option.mem_toList]
  constructor
  · rintro ⟨i, -, hcenter | hneighbor⟩
    · exact Or.inl (List.mem_of_getElem? hcenter)
    · exact Or.inr (List.mem_of_getElem? hneighbor)
  · rintro (hcenter | hneighbor)
    · obtain ⟨i, hi, hp⟩ := List.mem_iff_getElem.mp hcenter
      exact ⟨i, by omega, Or.inl (by simp [hi, hp])⟩
    · obtain ⟨i, hi, hp⟩ := List.mem_iff_getElem.mp hneighbor
      exact ⟨i, by omega, Or.inr (by simp [hi, hp])⟩

theorem blockPosFromLocalIndex_localBlockIndex {chunk : ChunkPos} {sectionY : Int} {p : BlockPos}
    (hx : blockToSectionCoord p.x = chunk.x) (hz : blockToSectionCoord p.z = chunk.z)
    (hy : blockToSectionCoord p.y = sectionY) : blockPosFromLocalIndex chunk sectionY (localBlockIndex p) = p := by
  unfold blockToSectionCoord at hx hy hz
  unfold blockPosFromLocalIndex localBlockIndex
  ext <;> dsimp only <;> omega

namespace LightCacheLayout

variable {layout : LightCacheLayout} {p n : BlockPos} {d : LightAxisDirection} {sectionY : Int}

theorem inCenter_iff : layout.inCenter p ↔ (layout.centerChunk.x * 16 ≤ p.x ∧ p.x < layout.centerChunk.x * 16 + 16) ∧
    layout.centerChunk.z * 16 ≤ p.z ∧ p.z < layout.centerChunk.z * 16 + 16 := by
  simp only [inCenter, containsChunk, decide_eq_true_eq]
  simp only [blockToSectionCoord]
  omega

theorem outside_iff : layout.outside p ↔ layout.inside p ∧ ¬ layout.inCenter p := by simp [outside]

/-- A scan of the center chunk's edge stays in its section, beside the neighbor's. -/
theorem currentEdgeScan_inside (hd : d ∈ LightAxisDirection.horizontal) (hy : sectionY ∈ layout.sectionsDown)
    (hp : p ∈ (currentEdgeScan layout.centerChunk d).positions sectionY) :
    layout.inside p ∧ layout.inside (p.step d) ∧ blockPosFromLocalIndex layout.centerChunk sectionY (localBlockIndex p) = p ∧
      blockPosFromLocalIndex (layout.centerChunk.step d) sectionY (localBlockIndex (p.step d)) = p.step d := by
  obtain ⟨y, hy', i, hi, rfl⟩ := EdgeScan.mem_positions.mp hp
  have hy := mem_sectionsDown.mp hy
  rw [inside_iff, inside_iff]
  refine ⟨?_, ?_, blockPosFromLocalIndex_localBlockIndex ?_ ?_ ?_, blockPosFromLocalIndex_localBlockIndex ?_ ?_ ?_⟩
  all_goals
    simp only [LightAxisDirection.horizontal, List.mem_cons, List.not_mem_nil, or_false] at hd
    obtain rfl | rfl | rfl | rfl := hd <;>
      simp [currentEdgeScan, BlockPos.step, ChunkPos.step, LightAxisDirection.offset, blockToSectionCoord] <;> omega

theorem neighborEdgeScan_inside (hd : d ∈ LightAxisDirection.horizontal) (hy : sectionY ∈ layout.sectionsDown)
    (hp : p ∈ (neighborEdgeScan layout.centerChunk d).positions sectionY) : layout.inside p := by
  obtain ⟨y, hy', i, hi, rfl⟩ := EdgeScan.mem_positions.mp hp
  have hy := mem_sectionsDown.mp hy
  rw [inside_iff]
  simp only [LightAxisDirection.horizontal, List.mem_cons, List.not_mem_nil, or_false] at hd
  obtain rfl | rfl | rfl | rfl := hd <;> simp [neighborEdgeScan, LightAxisDirection.offset] <;> omega

/-- The scans visit both sides of every face between the center chunk and its neighbors. -/
theorem scanned_of_step (hn : layout.outside n) (hp : layout.inside p) (hcenter : layout.inCenter p)
    (hstep : p = n.step d) : d.opposite ∈ LightAxisDirection.horizontal ∧
      ∃ sectionY ∈ layout.sectionsDown, p ∈ (currentEdgeScan layout.centerChunk d.opposite).positions sectionY ∧
        n ∈ (neighborEdgeScan layout.centerChunk d.opposite).positions sectionY := by
  obtain ⟨hinside, hno⟩ := outside_iff.mp hn
  subst hstep
  rw [inCenter_iff] at hno hcenter
  rw [inside_iff] at hinside hp
  have hhorizontal : d.opposite ∈ LightAxisDirection.horizontal := by
    cases d <;> simp [LightAxisDirection.opposite, LightAxisDirection.horizontal] <;>
      simp [BlockPos.step, LightAxisDirection.offset] at hcenter <;> omega
  refine ⟨hhorizontal, blockToSectionCoord n.y, mem_sectionsDown.mpr ?_, EdgeScan.mem_positions.mpr ?_,
    EdgeScan.mem_positions.mpr ?_⟩
  · unfold blockToSectionCoord
    omega
  all_goals
    -- along the edge, one of the coordinates counts the steps
    let alongX := (n.x - layout.centerChunk.x * 16).toNat
    let alongZ := (n.z - layout.centerChunk.z * 16).toNat
    cases d <;> simp [LightAxisDirection.opposite, LightAxisDirection.horizontal] at hhorizontal <;>
      simp only [BlockPos.step, LightAxisDirection.offset] at hcenter
    · exact ⟨(n.y % 16).toNat, by omega, alongZ, by omega, by ext <;>
        simp [currentEdgeScan, neighborEdgeScan, BlockPos.step, LightAxisDirection.offset, LightAxisDirection.opposite,
          blockToSectionCoord, alongZ] <;> omega⟩
    · exact ⟨(n.y % 16).toNat, by omega, alongZ, by omega, by ext <;>
        simp [currentEdgeScan, neighborEdgeScan, BlockPos.step, LightAxisDirection.offset, LightAxisDirection.opposite,
          blockToSectionCoord, alongZ] <;> omega⟩
    · exact ⟨(n.y % 16).toNat, by omega, alongX, by omega, by ext <;>
        simp [currentEdgeScan, neighborEdgeScan, BlockPos.step, LightAxisDirection.offset, LightAxisDirection.opposite,
          blockToSectionCoord, alongX] <;> omega⟩
    · exact ⟨(n.y % 16).toNat, by omega, alongX, by omega, by ext <;>
        simp [currentEdgeScan, neighborEdgeScan, BlockPos.step, LightAxisDirection.offset, LightAxisDirection.opposite,
          blockToSectionCoord, alongX] <;> omega⟩

end LightCacheLayout

end Foton.Light

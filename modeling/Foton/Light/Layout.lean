import Mathlib.Data.Fintype.Card
import Mathlib.Data.Finset.Card
import Mathlib.Data.Set.Finite.Basic
import Mathlib.Data.Int.Interval

/-!
# Shapes that hide light

A shape is a list of boxes, and a box covers some of the 16 by 16 cells of each
face that it touches. A face between two blocks is blocked when both shapes
together cover it.
-/

namespace Foton.Light

inductive LightAxisDirection where
  | positiveX
  | negativeX
  | positiveZ
  | negativeZ
  | positiveY
  | negativeY
  deriving DecidableEq

namespace LightAxisDirection

def all : List LightAxisDirection := [positiveX, negativeX, positiveZ, negativeZ, positiveY, negativeY]

def horizontal : List LightAxisDirection := [positiveX, negativeX, positiveZ, negativeZ]

def opposite : LightAxisDirection → LightAxisDirection
  | positiveX => negativeX
  | negativeX => positiveX
  | positiveZ => negativeZ
  | negativeZ => positiveZ
  | positiveY => negativeY
  | negativeY => positiveY

@[simp] theorem opposite_opposite (d : LightAxisDirection) : d.opposite.opposite = d := by cases d <;> rfl

@[simp] theorem mem_all (d : LightAxisDirection) : d ∈ all := by cases d <;> simp [all]

end LightAxisDirection

/-- The cells of a face's grid, in the order of `project_shape_onto_grid`. -/
abbrev Cell := Fin 256

structure Box where
  /-- The cells that the box covers on a face: none when it does not touch the face. -/
  cells : LightAxisDirection → Finset Cell

structure VoxelShape where
  boxes : List Box
  isFullBlock : Bool
  full_nonempty : isFullBlock = true → boxes ≠ []

namespace VoxelShape

def empty : VoxelShape := ⟨[], false, by simp⟩

def isEmpty (shape : VoxelShape) : Bool := shape.boxes.isEmpty

/-- `project_shape_onto_grid`: the cells that the shape covers. -/
def project (shape : VoxelShape) (face : LightAxisDirection) : Finset Cell :=
  shape.boxes.foldl (fun grid box => grid ∪ box.cells face) ∅

theorem project_isEmpty {shape : VoxelShape} (h : shape.isEmpty) (face : LightAxisDirection) :
    shape.project face = ∅ := by
  have hboxes : shape.boxes = [] := by simpa [isEmpty] using h
  simp [project, hboxes]

theorem not_full_of_isEmpty {shape : VoxelShape} (h : shape.isEmpty) : shape.isFullBlock = false := by
  have hboxes : shape.boxes = [] := by simpa [isEmpty] using h
  cases hfull : shape.isFullBlock with
  | false => rfl
  | true => exact absurd hboxes (shape.full_nonempty hfull)

end VoxelShape

def mergedFaceOccludes (shape₁ shape₂ : VoxelShape) (direction : LightAxisDirection) : Bool :=
  if shape₁.isFullBlock || shape₂.isFullBlock then true
  else if shape₁.isEmpty && shape₂.isEmpty then false
  else decide ((shape₁.project direction ∪ shape₂.project direction.opposite).card = 256)

theorem mergedFaceOccludes_symm (shape₁ shape₂ : VoxelShape) (direction : LightAxisDirection) :
    mergedFaceOccludes shape₁ shape₂ direction = mergedFaceOccludes shape₂ shape₁ direction.opposite := by
  simp only [mergedFaceOccludes, Bool.or_comm shape₁.isFullBlock, Bool.and_comm shape₁.isEmpty,
    LightAxisDirection.opposite_opposite, Finset.union_comm (shape₁.project direction)]

theorem mergedFaceOccludes_of_empty {shape : VoxelShape} (hempty : shape.isEmpty) (shape₁ shape₂ : VoxelShape)
    (direction : LightAxisDirection) (h : mergedFaceOccludes shape shape₂ direction) :
    mergedFaceOccludes shape₁ shape₂ direction := by
  unfold mergedFaceOccludes at h ⊢
  rw [VoxelShape.not_full_of_isEmpty hempty, hempty, VoxelShape.project_isEmpty hempty] at h
  by_cases hfull : shape₂.isFullBlock
  · simp [hfull]
  · have hgrid : ¬ shape₂.isEmpty ∧ (shape₂.project direction.opposite).card = 256 := by
      simpa [hfull] using h
    have huniv : shape₂.project direction.opposite = Finset.univ := by
      rw [← Finset.card_eq_iff_eq_univ, hgrid.2, Fintype.card_fin]
    have hunion : shape₁.project direction ∪ shape₂.project direction.opposite = Finset.univ := by
      rw [huniv]
      exact Finset.union_eq_right.mpr (Finset.subset_univ _)
    rw [hunion, Finset.card_univ, Fintype.card_fin]
    simp [hgrid.1]

/-! ## Block states -/

def maxLightLevel : Nat := 15

def lightBlocked : Nat := maxLightLevel + 1

/-- What lighting reads of the registry of block states. -/
structure BlockStates where
  State : Type
  lightEmission : State → Nat
  lightDampening : State → Nat
  dampening_le : ∀ state, lightDampening state ≤ maxLightLevel
  canOcclude : State → Bool
  useShapeForLightOcclusion : State → Bool
  occlusionShape : State → VoxelShape
  air : State
  air_shape : canOcclude air = false

namespace BlockStates

variable (B : BlockStates)

def lightOpacity (state : B.State) : Nat := max (B.lightDampening state) 1

def lightOcclusionShape (state : B.State) : VoxelShape :=
  if !B.canOcclude state || !B.useShapeForLightOcclusion state then .empty else B.occlusionShape state

def lightBlockInto (fromState toState : B.State) (direction : LightAxisDirection) (simpleOpacity : Nat) : Nat :=
  let fromShape := B.lightOcclusionShape fromState
  let toShape := B.lightOcclusionShape toState
  if fromShape.isEmpty && toShape.isEmpty then simpleOpacity
  else if mergedFaceOccludes fromShape toShape direction then lightBlocked
  else simpleOpacity

variable {B}

theorem lightOpacity_pos (state : B.State) : 0 < B.lightOpacity state := by simp [lightOpacity]

theorem lightOpacity_ne (state : B.State) : B.lightOpacity state ≠ lightBlocked := by
  have h := B.dampening_le state
  simp only [lightOpacity, lightBlocked, maxLightLevel] at *
  omega

@[simp] theorem air_isEmpty : (B.lightOcclusionShape B.air).isEmpty := by
  simp [lightOcclusionShape, B.air_shape, VoxelShape.empty, VoxelShape.isEmpty]

/-- The shapes of the two states do not block the face between them. -/
def Opens (fromState toState : B.State) (direction : LightAxisDirection) : Prop :=
  B.lightBlockInto fromState toState direction (B.lightOpacity toState) ≠ lightBlocked

instance (fromState toState : B.State) (direction : LightAxisDirection) : Decidable (Opens fromState toState direction) :=
  inferInstanceAs (Decidable (_ ≠ _))

theorem lightBlockInto_eq {fromState toState : B.State} {direction : LightAxisDirection}
    (h : Opens fromState toState direction) :
    B.lightBlockInto fromState toState direction (B.lightOpacity toState) = B.lightOpacity toState := by
  unfold Opens lightBlockInto at *
  dsimp only at *
  split at h
  · simp_all
  · split at h
    · exact absurd rfl h
    · simp_all

theorem opens_iff (fromState toState : B.State) (direction : LightAxisDirection) :
    Opens fromState toState direction ↔
      ¬ mergedFaceOccludes (B.lightOcclusionShape fromState) (B.lightOcclusionShape toState) direction := by
  unfold Opens lightBlockInto
  dsimp only
  split
  next hempty =>
    have hshapes : (B.lightOcclusionShape fromState).isEmpty ∧ (B.lightOcclusionShape toState).isEmpty := by
      simpa using hempty
    simp [mergedFaceOccludes, hshapes, VoxelShape.not_full_of_isEmpty, lightOpacity_ne]
  · split
    next hblocked => simp [hblocked]
    next hopen => simp [hopen, lightOpacity_ne]

theorem opens_symm {fromState toState : B.State} {direction : LightAxisDirection} :
    Opens fromState toState direction ↔ Opens toState fromState direction.opposite := by
  rw [opens_iff, opens_iff, mergedFaceOccludes_symm]

theorem Opens.of_empty {fromState toState state : B.State} {direction : LightAxisDirection}
    (h : Opens fromState toState direction) (hempty : (B.lightOcclusionShape state).isEmpty) :
    Opens state toState direction := by
  rw [opens_iff] at h ⊢
  exact fun hblocked => h (mergedFaceOccludes_of_empty hempty _ _ _ hblocked)

end BlockStates

/-!
## The cache window of a light engine

Chunks within two of the center are cached. Light sections are populated for
the chunks within one of it, and a queue entry can pack the positions of a
window of 64 by 64 columns.
-/

@[ext]
structure BlockPos where
  x : Int
  y : Int
  z : Int
  deriving DecidableEq

def LightAxisDirection.offset : LightAxisDirection → Int × Int × Int
  | positiveX => (1, 0, 0)
  | negativeX => (-1, 0, 0)
  | positiveZ => (0, 0, 1)
  | negativeZ => (0, 0, -1)
  | positiveY => (0, 1, 0)
  | negativeY => (0, -1, 0)

def BlockPos.step (p : BlockPos) (d : LightAxisDirection) : BlockPos :=
  ⟨p.x + d.offset.1, p.y + d.offset.2.1, p.z + d.offset.2.2⟩

@[simp]
theorem BlockPos.step_step (p : BlockPos) (d : LightAxisDirection) : (p.step d).step d.opposite = p := by
  cases d <;> ext <;> simp [BlockPos.step, LightAxisDirection.offset, LightAxisDirection.opposite]

theorem BlockPos.step_ne (p : BlockPos) (d : LightAxisDirection) : p.step d ≠ p := by
  intro h
  cases d <;> simp [BlockPos.step, LightAxisDirection.offset, BlockPos.ext_iff] at h

theorem BlockPos.step_inj {p : BlockPos} {d d' : LightAxisDirection} (h : p.step d = p.step d') : d = d' := by
  cases d <;> cases d' <;> first | rfl | simp [BlockPos.step, LightAxisDirection.offset, BlockPos.ext_iff] at h

structure ChunkPos where
  x : Int
  z : Int
  deriving DecidableEq

/-- The coordinate of the section that holds a block coordinate. -/
def blockToSectionCoord (block : Int) : Int := block / 16

structure LightCacheLayout where
  centerChunk : ChunkPos
  minSectionY : Int
  sectionCount : Nat

namespace LightCacheLayout

variable (layout : LightCacheLayout)

def maxSectionYExclusive : Int := layout.minSectionY + layout.sectionCount

def containsChunk (radius : Nat) (p : BlockPos) : Bool :=
  decide ((blockToSectionCoord p.x - layout.centerChunk.x).natAbs ≤ radius ∧
    (blockToSectionCoord p.z - layout.centerChunk.z).natAbs ≤ radius)

/-- Sections are cached with one more below and above the light sections. -/
def containsSectionY (p : BlockPos) : Bool :=
  decide (layout.minSectionY - 1 ≤ blockToSectionCoord p.y ∧
    blockToSectionCoord p.y < layout.maxSectionYExclusive + 1)

/-- `cached_block` finds the position. -/
def cached (p : BlockPos) : Bool := layout.containsChunk 2 p && layout.containsSectionY p

/-- The position has a light section of its own. -/
def inside (p : BlockPos) : Bool :=
  layout.containsChunk 1 p &&
    decide (layout.minSectionY ≤ blockToSectionCoord p.y ∧ blockToSectionCoord p.y < layout.maxSectionYExclusive)

def encodedMinBlock (chunk : Int) : Int := chunk * 16 + 7 - 31

/-- `encode_block_pos` packs the position. -/
def encodes (p : BlockPos) : Bool :=
  decide (encodedMinBlock layout.centerChunk.x ≤ p.x ∧ p.x ≤ encodedMinBlock layout.centerChunk.x + 63 ∧
    encodedMinBlock layout.centerChunk.z ≤ p.z ∧ p.z ≤ encodedMinBlock layout.centerChunk.z + 63) &&
    layout.containsSectionY p

/-- The light sections of a column, from the top down. -/
def sectionsDown : List Int := ((List.range layout.sectionCount).map fun i : Nat => layout.minSectionY + i).reverse

variable {layout} {p : BlockPos}

theorem inside_iff : layout.inside p ↔
    (layout.centerChunk.x * 16 - 16 ≤ p.x ∧ p.x < layout.centerChunk.x * 16 + 32) ∧
      (layout.centerChunk.z * 16 - 16 ≤ p.z ∧ p.z < layout.centerChunk.z * 16 + 32) ∧
        layout.minSectionY * 16 ≤ p.y ∧ p.y < layout.maxSectionYExclusive * 16 := by
  simp only [inside, containsChunk, Bool.and_eq_true, decide_eq_true_eq]
  simp only [blockToSectionCoord]
  omega

theorem cached_of_inside (h : layout.inside p) : layout.cached p := by
  rw [inside_iff] at h
  simp only [cached, containsChunk, containsSectionY, Bool.and_eq_true, decide_eq_true_eq]
  simp only [blockToSectionCoord]
  omega

theorem encodes_of_inside (h : layout.inside p) : layout.encodes p := by
  rw [inside_iff] at h
  simp only [encodes, containsSectionY, Bool.and_eq_true, decide_eq_true_eq]
  simp only [encodedMinBlock, blockToSectionCoord]
  omega

variable (layout) in
theorem inside_finite : {p | layout.inside p}.Finite := by
  let bounds (chunk : Int) := Finset.Ico (chunk * 16 - 16) (chunk * 16 + 32)
  let heights := Finset.Ico (layout.minSectionY * 16) (layout.maxSectionYExclusive * 16)
  let box := bounds layout.centerChunk.x ×ˢ heights ×ˢ bounds layout.centerChunk.z
  refine (box.image fun c => BlockPos.mk c.1 c.2.1 c.2.2).finite_toSet.subset fun p hp => ?_
  have hp := inside_iff.mp hp
  refine Finset.mem_coe.mpr (Finset.mem_image.mpr ⟨(p.x, p.y, p.z), ?_, rfl⟩)
  simpa [box, bounds, heights, and_assoc, and_comm, and_left_comm] using hp

theorem mem_sectionsDown {y : Int} : y ∈ layout.sectionsDown ↔ layout.minSectionY ≤ y ∧ y < layout.maxSectionYExclusive := by
  simp only [sectionsDown, maxSectionYExclusive, List.mem_reverse, List.mem_map, List.mem_range]
  constructor
  · rintro ⟨i, hi, rfl⟩
    omega
  · rintro ⟨hmin, hmax⟩
    exact ⟨(y - layout.minSectionY).toNat, by omega, by omega⟩

end LightCacheLayout

end Foton.Light

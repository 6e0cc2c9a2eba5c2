import Foton.Lib.OrderedIndex
import Foton.Lib.RangeWalk
import Foton.Poi.Set
import Mathlib.Data.Prod.Lex
import Mathlib.Data.Int.Bitwise

/-!
# The world entity manager

The manager files the live entities by id, by UUID, by section and by the cells
of four blocks that their boxes touch. Boxes that intersect touch a common cell,
and the packed sections of a chunk are a range, as the height is in the lowest
bits. Entities of a chunk that unloads are retained until the unload ends or the
chunk returns, and removed entities that are to be saved wait for the save.
`entities` gives what an operation reads of the entities, which change between
operations as they like.
-/

namespace Foton.Entities

export Light (ChunkPos)
export Poi (SectionPos)
open Light (blockToSectionCoord)

/-! ## Boxes -/

/-- What the manager needs of the coordinates, which are floats that are not NaN. -/
class Coordinate (F : Type) extends LinearOrder F where
  /-- `floor() as i32` -/
  blockCoord : F → Int
  /-- `((c + 2.0) / 4.0).floor() as i32` -/
  cellCoord : F → Int
  cellCoord_mono : ∀ {a b : F}, a ≤ b → cellCoord a ≤ cellCoord b

variable {F : Type} [Coordinate F]

structure Vec3 (F : Type) where
  x : F
  y : F
  z : F

/-- A box as `new` makes it. -/
structure WorldAabb (F : Type) [Coordinate F] where
  min : Vec3 F
  max : Vec3 F
  le_x : min.x ≤ max.x
  le_y : min.y ≤ max.y
  le_z : min.z ≤ max.z

def axisOverlaps (min1 max1 min2 max2 : F) : Bool := decide (min1 < max2) && decide (min2 < max1)

def WorldAabb.intersects (a b : WorldAabb F) : Bool :=
  axisOverlaps a.min.x a.max.x b.min.x b.max.x && axisOverlaps a.min.y a.max.y b.min.y b.max.y &&
    axisOverlaps a.min.z a.max.z b.min.z b.max.z

/-! ## Cells -/

structure EntitySpatialCell where
  x : Int
  y : Int
  z : Int
  deriving DecidableEq

def EntitySpatialCell.containing (v : Vec3 F) : EntitySpatialCell :=
  ⟨Coordinate.cellCoord v.x, Coordinate.cellCoord v.y, Coordinate.cellCoord v.z⟩

structure EntitySpatialCellBounds where
  minimum : EntitySpatialCell
  maximum : EntitySpatialCell

namespace EntitySpatialCellBounds

def fromAabb (aabb : WorldAabb F) : EntitySpatialCellBounds := ⟨.containing aabb.min, .containing aabb.max⟩

variable (b : EntitySpatialCellBounds) (c : EntitySpatialCell)

def contains : Bool :=
  decide (b.minimum.x ≤ c.x) && decide (c.x ≤ b.maximum.x) && decide (b.minimum.y ≤ c.y) && decide (c.y ≤ b.maximum.y) &&
    decide (b.minimum.z ≤ c.z) && decide (c.z ≤ b.maximum.z)

def directProbeCount : Int :=
  (b.maximum.x - b.minimum.x + 1) * (b.maximum.y - b.minimum.y + 1) * (b.maximum.z - b.minimum.z + 1)

def cells : List EntitySpatialCell :=
  (rangeClosed b.minimum.x b.maximum.x).flatMap fun x =>
    (rangeClosed b.minimum.y b.maximum.y).flatMap fun y =>
      (rangeClosed b.minimum.z b.maximum.z).map fun z => ⟨x, y, z⟩

variable {b} {c}

theorem contains_iff : b.contains c = true ↔ (b.minimum.x ≤ c.x ∧ c.x ≤ b.maximum.x) ∧
    (b.minimum.y ≤ c.y ∧ c.y ≤ b.maximum.y) ∧ b.minimum.z ≤ c.z ∧ c.z ≤ b.maximum.z := by
  unfold contains
  simp only [Bool.and_eq_true, decide_eq_true_eq, and_assoc]

theorem mem_cells : c ∈ b.cells ↔ b.contains c = true := by
  rw [contains_iff]
  unfold cells
  simp only [List.mem_flatMap, List.mem_map, mem_rangeClosed]
  constructor
  · rintro ⟨x, hx, y, hy, z, hz, rfl⟩
    exact ⟨hx, hy, hz⟩
  · rintro ⟨hx, hy, hz⟩
    exact ⟨c.x, hx, c.y, hy, c.z, hz, rfl⟩

theorem nodup_cells (b : EntitySpatialCellBounds) : b.cells.Nodup := by
  have hrange : ∀ first last, (rangeClosed first last).Pairwise (· ≠ ·) := fun first last =>
    (pairwise_rangeClosed first last).imp ne_of_lt
  refine List.pairwise_flatMap.mpr ⟨fun x _ => List.pairwise_flatMap.mpr ⟨fun y _ => ?_, ?_⟩, ?_⟩
  · rw [List.pairwise_map]
    apply (hrange _ _).imp
    intro z z' hne heq
    exact hne (EntitySpatialCell.mk.inj heq).2.2
  · apply (hrange _ _).imp
    intro y y' hne c hc c' hc' heq
    obtain ⟨z, -, rfl⟩ := List.mem_map.mp hc
    obtain ⟨z', -, rfl⟩ := List.mem_map.mp hc'
    exact hne (EntitySpatialCell.mk.inj heq).2.1
  · apply (hrange _ _).imp
    intro x x' hne c hc c' hc' heq
    obtain ⟨y, -, hc⟩ := List.mem_flatMap.mp hc
    obtain ⟨y', -, hc'⟩ := List.mem_flatMap.mp hc'
    obtain ⟨z, -, rfl⟩ := List.mem_map.mp hc
    obtain ⟨z', -, rfl⟩ := List.mem_map.mp hc'
    exact hne (EntitySpatialCell.mk.inj heq).1

end EntitySpatialCellBounds

theorem exists_common_coord {min1 max1 min2 max2 : F} (h1 : min1 ≤ max1) (h2 : min2 ≤ max2)
    (h : axisOverlaps min1 max1 min2 max2 = true) : ∃ c : Int,
      (Coordinate.cellCoord min1 ≤ c ∧ c ≤ Coordinate.cellCoord max1) ∧
        Coordinate.cellCoord min2 ≤ c ∧ c ≤ Coordinate.cellCoord max2 := by
  unfold axisOverlaps at h
  rw [Bool.and_eq_true, decide_eq_true_eq, decide_eq_true_eq] at h
  have h12 := Coordinate.cellCoord_mono h.1.le
  have h21 := Coordinate.cellCoord_mono h.2.le
  have h11 := Coordinate.cellCoord_mono h1
  have h22 := Coordinate.cellCoord_mono h2
  refine ⟨Coordinate.cellCoord min1 ⊔ Coordinate.cellCoord min2, ?_⟩
  omega

/-- Boxes that intersect touch a common cell. -/
theorem exists_common_cell {a b : WorldAabb F} (h : a.intersects b = true) :
    ∃ c, (EntitySpatialCellBounds.fromAabb a).contains c = true ∧ (EntitySpatialCellBounds.fromAabb b).contains c = true := by
  unfold WorldAabb.intersects at h
  rw [Bool.and_eq_true, Bool.and_eq_true] at h
  obtain ⟨x, hax, hbx⟩ := exists_common_coord a.le_x b.le_x h.1.1
  obtain ⟨y, hay, hby⟩ := exists_common_coord a.le_y b.le_y h.1.2
  obtain ⟨z, haz, hbz⟩ := exists_common_coord a.le_z b.le_z h.2
  exact ⟨⟨x, y, z⟩, EntitySpatialCellBounds.contains_iff.mpr ⟨hax, hay, haz⟩,
    EntitySpatialCellBounds.contains_iff.mpr ⟨hbx, hby, hbz⟩⟩

/-! ## Sections -/

def SectionPos.fromEntityPos (pos : Vec3 F) : SectionPos :=
  ⟨blockToSectionCoord (Coordinate.blockCoord pos.x), blockToSectionCoord (Coordinate.blockCoord pos.y),
    blockToSectionCoord (Coordinate.blockCoord pos.z)⟩

/-- 22 bits of x, 22 of z and 20 of y, as an `i64`. -/
abbrev PackedSectionPos : Type := Int

def PackedSectionPos.fromSection (s : SectionPos) : Int :=
  Int.bmod (s.x % 2 ^ 22 * 2 ^ 42 + s.z % 2 ^ 22 * 2 ^ 20 + s.y % 2 ^ 20) (2 ^ 64)

/-- First by section, then by the order of filing. -/
abbrev EntityQueryOrder : Type := PackedSectionPos ×ₗ Nat

theorem bmod_section (x : Int) :
    Int.bmod x (2 ^ 22) = if x % 2 ^ 22 < 2 ^ 21 then x % 2 ^ 22 else x % 2 ^ 22 - 2 ^ 22 := by
  rw [Int.bmod_def]
  rfl

theorem bmod_packed (x : Int) :
    Int.bmod x (2 ^ 64) = if x % 2 ^ 64 < 2 ^ 63 then x % 2 ^ 64 else x % 2 ^ 64 - 2 ^ 64 := by
  rw [Int.bmod_def]
  rfl

theorem fromSection_eq (s : SectionPos) :
    PackedSectionPos.fromSection s = Int.bmod s.x (2 ^ 22) * 2 ^ 42 + s.z % 2 ^ 22 * 2 ^ 20 + s.y % 2 ^ 20 := by
  unfold PackedSectionPos.fromSection
  have hx := Int.emod_nonneg s.x (show (2 : Int) ^ 22 ≠ 0 by decide)
  have hx' := Int.emod_lt_of_pos s.x (show (0 : Int) < 2 ^ 22 by decide)
  have hz := Int.emod_nonneg s.z (show (2 : Int) ^ 22 ≠ 0 by decide)
  have hz' := Int.emod_lt_of_pos s.z (show (0 : Int) < 2 ^ 22 by decide)
  have hy := Int.emod_nonneg s.y (show (2 : Int) ^ 20 ≠ 0 by decide)
  have hy' := Int.emod_lt_of_pos s.y (show (0 : Int) < 2 ^ 20 by decide)
  rw [bmod_section, bmod_packed]
  generalize s.x % 2 ^ 22 = x at *
  generalize s.z % 2 ^ 22 = z at *
  generalize s.y % 2 ^ 20 = y at *
  rw [Int.emod_eq_of_lt (by omega) (by omega)]
  split <;> split <;> omega

/-- Numbers of three digits that differ in the last one only. -/
theorem digits_window {a b r : Int} (hb : -2 ^ 22 < b ∧ b < 2 ^ 22) (hr : 0 ≤ r ∧ r < 2 ^ 20) :
    0 ≤ a * 2 ^ 42 + b * 2 ^ 20 + r ∧ a * 2 ^ 42 + b * 2 ^ 20 + r < 2 ^ 20 ↔ a = 0 ∧ b = 0 := by
  constructor
  · intro h
    have hdigits : a * 2 ^ 22 + b = 0 := by omega
    omega
  · rintro ⟨rfl, rfl⟩
    omega

/-- The packed sections of a chunk are those between its sections of heights 0 and -1. -/
theorem mem_chunkRange (s : SectionPos) (c : ChunkPos) :
    PackedSectionPos.fromSection ⟨c.x, 0, c.z⟩ ≤ PackedSectionPos.fromSection s ∧
        PackedSectionPos.fromSection s ≤ PackedSectionPos.fromSection ⟨c.x, -1, c.z⟩ ↔
      s.x % 2 ^ 22 = c.x % 2 ^ 22 ∧ s.z % 2 ^ 22 = c.z % 2 ^ 22 := by
  have hz := Int.emod_nonneg s.z (show (2 : Int) ^ 22 ≠ 0 by decide)
  have hz' := Int.emod_lt_of_pos s.z (show (0 : Int) < 2 ^ 22 by decide)
  have hcz := Int.emod_nonneg c.z (show (2 : Int) ^ 22 ≠ 0 by decide)
  have hcz' := Int.emod_lt_of_pos c.z (show (0 : Int) < 2 ^ 22 by decide)
  have hy := Int.emod_nonneg s.y (show (2 : Int) ^ 20 ≠ 0 by decide)
  have hy' := Int.emod_lt_of_pos s.y (show (0 : Int) < 2 ^ 20 by decide)
  have hx : s.x % 2 ^ 22 = c.x % 2 ^ 22 ↔ Int.bmod s.x (2 ^ 22) = Int.bmod c.x (2 ^ 22) := by
    rw [bmod_section, bmod_section]
    split <;> split <;> omega
  have hwindow := digits_window (a := Int.bmod s.x (2 ^ 22) - Int.bmod c.x (2 ^ 22)) (b := s.z % 2 ^ 22 - c.z % 2 ^ 22)
    (r := s.y % 2 ^ 20) (by omega) ⟨hy, hy'⟩
  have hzero : Int.bmod s.x (2 ^ 22) = Int.bmod c.x (2 ^ 22) ∧ s.z % 2 ^ 22 = c.z % 2 ^ 22 ↔
      Int.bmod s.x (2 ^ 22) - Int.bmod c.x (2 ^ 22) = 0 ∧ s.z % 2 ^ 22 - c.z % 2 ^ 22 = 0 := by
    rw [sub_eq_zero, sub_eq_zero]
  rw [fromSection_eq, fromSection_eq, fromSection_eq, hx, hzero, ← hwindow]
  dsimp only
  generalize Int.bmod s.x (2 ^ 22) = x
  generalize Int.bmod c.x (2 ^ 22) = cx
  constructor
  · intro h
    omega
  · intro h
    omega

/-- The chunks that packing tells apart; a world has no others. -/
def InRange (c : ChunkPos) : Prop := -2 ^ 21 ≤ c.x ∧ c.x < 2 ^ 21 ∧ -2 ^ 21 ≤ c.z ∧ c.z < 2 ^ 21

instance (c : ChunkPos) : Decidable (InRange c) := inferInstanceAs (Decidable (_ ∧ _ ∧ _ ∧ _))

theorem mem_chunkRange_iff {s : SectionPos} {c : ChunkPos} (hs : InRange s.chunk) (hc : InRange c) :
    PackedSectionPos.fromSection ⟨c.x, 0, c.z⟩ ≤ PackedSectionPos.fromSection s ∧
        PackedSectionPos.fromSection s ≤ PackedSectionPos.fromSection ⟨c.x, -1, c.z⟩ ↔ s.chunk = c := by
  rw [mem_chunkRange]
  obtain ⟨cx, cz⟩ := c
  obtain ⟨x, y, z⟩ := s
  unfold InRange Poi.SectionPos.chunk at hs
  unfold InRange at hc
  unfold Poi.SectionPos.chunk
  rw [Light.ChunkPos.mk.injEq]
  dsimp only at hs hc ⊢
  omega

/-! ## Entities -/

inductive RemovalReason where
  | killed
  | discarded
  | unloadedToChunk
  | changedWorld
  | storedWithPlayer
  | unloadedWithPlayer
  deriving DecidableEq

def RemovalReason.shouldSave (reason : RemovalReason) : Bool := decide (reason = .unloadedToChunk)

/-- A reference to an entity, with what never changes of it. -/
structure SharedEntity where
  id : Int
  uuid : Nat
  isAlwaysTicking : Bool
  canSerialize : Bool
  deriving DecidableEq

structure EntityData (F : Type) [Coordinate F] where
  position : Vec3 F
  boundingBox : WorldAabb F
  removalReason : Option RemovalReason
  isPersistent : Bool
  vehicle : Option SharedEntity
  passengers : List SharedEntity
  hasExactlyOnePlayerPassenger : Bool

inductive EntityOwnership where
  | managerOwned
  | external
  deriving DecidableEq

inductive EntityVisibility where
  | hidden
  | tracked
  | ticking
  deriving DecidableEq

def EntityVisibility.isAccessible (v : EntityVisibility) : Bool := decide (v ≠ .hidden)

def EntityVisibility.isTicking (v : EntityVisibility) : Bool := decide (v = .ticking)

inductive AddEntityError where
  | chunkNotLoaded (entityId : Int) (chunk : ChunkPos)
  | duplicateUuid (entityId : Int) (uuid : Nat)
  | removedEntity (entityId : Int)

inductive EntityMoveError where
  | notLive (entityId : Int)
  | unloadedDestination (entityId : Int) (chunk : ChunkPos)

structure EntityLifecycleChanges where
  trackingStarted : List SharedEntity
  trackingStopped : List SharedEntity
  tickingStarted : List SharedEntity
  tickingStopped : List SharedEntity

def EntityLifecycleChanges.none : EntityLifecycleChanges := ⟨[], [], [], []⟩

def EntityLifecycleChanges.extend (a b : EntityLifecycleChanges) : EntityLifecycleChanges :=
  ⟨a.trackingStarted ++ b.trackingStarted, a.trackingStopped ++ b.trackingStopped,
    a.tickingStarted ++ b.tickingStarted, a.tickingStopped ++ b.tickingStopped⟩

/-! ## Entries -/

structure EntityEntry (F : Type) [Coordinate F] where
  entity : SharedEntity
  section_ : SectionPos
  boundingBox : WorldAabb F
  sectionOrder : Nat
  ownership : EntityOwnership

namespace EntityEntry

variable (entry : EntityEntry F)

def uuid : Nat := entry.entity.uuid

def chunk : ChunkPos := entry.section_.chunk

def spatialCells : List EntitySpatialCell := (EntitySpatialCellBounds.fromAabb entry.boundingBox).cells

def new (entities : SharedEntity → EntityData F) (entity : SharedEntity) (ownership : EntityOwnership) : EntityEntry F :=
  ⟨entity, SectionPos.fromEntityPos (entities entity).position, (entities entity).boundingBox, 0, ownership⟩

def shouldSave (entities : SharedEntity → EntityData F) : Bool :=
  decide (entry.ownership = .managerOwned) && ((entities entry.entity).removalReason.all RemovalReason.shouldSave) &&
    (entities entry.entity).isPersistent && (entities entry.entity).vehicle.isNone &&
    !(entities entry.entity).hasExactlyOnePlayerPassenger && entry.entity.canSerialize

def queryOrder : EntityQueryOrder := toLex (PackedSectionPos.fromSection entry.section_, entry.sectionOrder)

def lifecycleVisibility (chunkVisibility : EntityVisibility) : EntityVisibility :=
  if entry.entity.isAlwaysTicking then .ticking
  else if entry.ownership = .external then .tracked
  else chunkVisibility

end EntityEntry

/-! ## The state -/

abbrev LiveEntities (F : Type) [Coordinate F] : Type := AssocList Int (EntityEntry F)

structure ManagerState (F : Type) [Coordinate F] where
  chunkVisibility : AssocList ChunkPos EntityVisibility
  liveById : LiveEntities F
  liveByUuid : AssocList Nat Int
  accessibleOrder : OrderedIds Int
  bySection : OrderedIndex PackedSectionPos Int
  bySpatialCell : OrderedIndex EntitySpatialCell Int
  inboundChunks : AssocList ChunkPos Nat
  unloadingByChunk : AssocList ChunkPos (List (EntityEntry F))
  savePendingByChunk : AssocList ChunkPos (List (EntityEntry F))
  tickList : OrderedIds Int
  nextSectionOrder : Nat

namespace ManagerState

def new : ManagerState F :=
  ⟨∅, ∅, ∅, OrderedIds.empty, ∅, ∅, ∅, ∅, ∅, OrderedIds.empty, 0⟩

variable (entities : SharedEntity → EntityData F) (s : ManagerState F)

def chunkVisibilityAt (chunk : ChunkPos) : EntityVisibility := (s.chunkVisibility.lookup chunk).getD .hidden

def isAccessibleAt (ownership : EntityOwnership) (chunk : ChunkPos) : Bool :=
  decide (ownership = .external) || (s.chunkVisibilityAt chunk).isAccessible

def isAccessible (entry : EntityEntry F) : Bool := s.isAccessibleAt entry.ownership entry.chunk

/-- Whether the lifecycle of an entry has it tick. -/
def ticks (entry : EntityEntry F) : Bool := (entry.lifecycleVisibility (s.chunkVisibilityAt entry.chunk)).isTicking

/-- Whether a live entity comes after an order. -/
def above (live : LiveEntities F) (order : EntityQueryOrder) (id : Int) : Bool :=
  (live.lookup id).any fun entry => decide (order < entry.queryOrder)

/-- `insert_live_entry`, which asserts that id and UUID are new. -/
def insertLiveEntry (entry : EntityEntry F) : Option (ManagerState F) :=
  let entry := { entry with
    boundingBox := (entities entry.entity).boundingBox
    sectionOrder := s.nextSectionOrder }
  if (s.liveById.lookup entry.entity.id).isSome ∨ (s.liveByUuid.lookup entry.uuid).isSome ∨
      ¬ s.nextSectionOrder < 2 ^ 64 - 1 then none
  else
    (s.bySpatialCell.addRankedAll entry.entity.id (above s.liveById entry.queryOrder) entry.spatialCells).map fun cells =>
      { s with
        liveByUuid := s.liveByUuid.insert entry.uuid entry.entity.id
        nextSectionOrder := s.nextSectionOrder + 1
        bySection := s.bySection.add (PackedSectionPos.fromSection entry.section_) entry.entity.id
        bySpatialCell := cells
        liveById := s.liveById.insert entry.entity.id entry
        accessibleOrder :=
          if s.isAccessible entry then (s.accessibleOrder.insert entry.entity.id).1 else s.accessibleOrder }

def removeLiveEntry (id : Int) : Option (EntityEntry F × ManagerState F) :=
  (s.liveById.lookup id).map fun entry => (entry, { s with
    liveById := s.liveById.erase id
    tickList := (s.tickList.remove id).1
    liveByUuid := s.liveByUuid.erase entry.uuid
    accessibleOrder := (s.accessibleOrder.remove id).1
    bySection := s.bySection.remove (PackedSectionPos.fromSection entry.section_) id
    bySpatialCell := s.bySpatialCell.removeAll id entry.spatialCells })

/-- The new entry of a live entity, with its place in the indexes. -/
def reindex (old new : EntityEntry F) : Option (ManagerState F) :=
  let id := old.entity.id
  let sectionChanged := decide (old.section_ ≠ new.section_)
  let bySection := if sectionChanged then s.bySection.remove (PackedSectionPos.fromSection old.section_) id else s.bySection
  ((s.bySpatialCell.removeAll id old.spatialCells).addRankedAll id (above s.liveById new.queryOrder) new.spatialCells).map
    fun cells => { s with
      bySpatialCell := cells
      liveById := s.liveById.insert id new
      bySection := if sectionChanged then bySection.add (PackedSectionPos.fromSection new.section_) id else bySection }

/-! ## Moves -/

structure EntityMoveUpdate where
  entityId : Int
  oldSection : SectionPos
  newSection : SectionPos
  oldAccessible : Bool
  newAccessible : Bool
  oldTicking : Bool
  newTicking : Bool

def nextSectionOrder? : Option (Nat × ManagerState F) :=
  if s.nextSectionOrder < 2 ^ 64 - 1 then some (s.nextSectionOrder, { s with nextSectionOrder := s.nextSectionOrder + 1 })
  else none

/-- The walk from a passenger up to its root vehicle. -/
def climb (visited : List Int) (passenger vehicle : SharedEntity) : Bool :=
  if hvisited : vehicle.id ∈ visited then false
  else if (entities vehicle).removalReason.isSome ∨ passenger.id ∉ (entities vehicle).passengers.map SharedEntity.id then false
  else
    match hlive : s.liveById.lookup vehicle.id with
    | none => false
    | some entry =>
      match (entities vehicle).vehicle with
      | none => decide (entry.ownership = .external) || (s.chunkVisibility.lookup entry.chunk).isSome
      | some next => climb (vehicle.id :: visited) vehicle next
termination_by (s.liveById.keys.toFinset \ visited.toFinset).card
decreasing_by
  apply Finset.card_lt_card
  rw [Finset.ssubset_iff_of_subset (Finset.sdiff_subset_sdiff subset_rfl
    fun id hid => List.mem_toFinset.mpr (List.mem_cons_of_mem _ (List.mem_toFinset.mp hid)))]
  refine ⟨vehicle.id, ?_, by simp⟩
  have hkey : vehicle.id ∈ s.liveById.keys := AList.mem_keys.mp (AList.lookup_isSome.mp (by rw [hlive]; rfl))
  simp [hkey, hvisited]

def hasLiveLoadedRootVehicle (entity : SharedEntity) : Bool :=
  match (entities entity).vehicle with
  | none => false
  | some vehicle => s.climb entities [entity.id] entity vehicle

def canMoveManagerOwnedToChunk (entry : EntityEntry F) (chunk : ChunkPos) : Bool :=
  (s.chunkVisibility.lookup chunk).isSome || (s.inboundChunks.lookup chunk).isSome ||
    ((entities entry.entity).vehicle.isSome && s.hasLiveLoadedRootVehicle entities entry.entity)

/-- The order of a live entity in a section; a section that is new to it has a new order. -/
def sectionOrderAt (current : EntityEntry F) (newSection : SectionPos) : Option (Nat × ManagerState F) :=
  if current.section_ = newSection then some (current.sectionOrder, s) else s.nextSectionOrder?

/-- Commits the indexes after a move; an order of insertion that has run out is a panic. -/
def commitMove (id : Int) (newPos : Vec3 F) : Option (Except EntityMoveError EntityMoveUpdate × ManagerState F) :=
  match s.liveById.lookup id with
  | none => some (.error (.notLive id), s)
  | some current =>
    let newSection := SectionPos.fromEntityPos newPos
    let newChunk := newSection.chunk
    if current.ownership = .managerOwned ∧ s.canMoveManagerOwnedToChunk entities current newChunk = false then
      some (.error (.unloadedDestination id newChunk), s)
    else
      let update : EntityMoveUpdate := {
        entityId := id
        oldSection := current.section_
        newSection := newSection
        oldAccessible := s.isAccessible current
        newAccessible := s.isAccessibleAt current.ownership newChunk
        oldTicking := s.ticks current
        newTicking := (current.lifecycleVisibility (s.chunkVisibilityAt newChunk)).isTicking }
      let moved : EntityEntry F := { current with boundingBox := (entities current.entity).boundingBox }
      if current.section_ = newSection ∧ current.spatialCells = moved.spatialCells then
        some (.ok update, { s with liveById := s.liveById.insert id moved })
      else do
        let (order, s) ← s.sectionOrderAt current newSection
        let s ← s.reindex current { moved with section_ := newSection, sectionOrder := order }
        return (.ok update, { s with
          accessibleOrder := s.accessibleOrder.toggle id update.oldAccessible update.newAccessible
          tickList := s.tickList.toggle id update.oldTicking update.newTicking })

def commitBoundingBoxChange (id : Int) : Option (ManagerState F) :=
  match s.liveById.lookup id with
  | none => some s
  | some current =>
    let moved : EntityEntry F := { current with boundingBox := (entities current.entity).boundingBox }
    if current.spatialCells = moved.spatialCells then some { s with liveById := s.liveById.insert id moved }
    else s.reindex current moved

/-! ## Chunks -/

def entityIdsInChunkOrder (chunk : ChunkPos) : List Int :=
  s.bySection.rangeIds (PackedSectionPos.fromSection ⟨chunk.x, 0, chunk.z⟩) (PackedSectionPos.fromSection ⟨chunk.x, -1, chunk.z⟩)

def applyEntityLifecycleAfterInsert (id : Int) : EntityLifecycleChanges × ManagerState F :=
  match s.liveById.lookup id with
  | none => (.none, s)
  | some entry =>
    let visibility := entry.lifecycleVisibility (s.chunkVisibilityAt entry.chunk)
    let started := if visibility.isTicking then (s.tickList.insert id).2 else false
    ({ trackingStarted := if visibility.isAccessible then [entry.entity] else []
       trackingStopped := []
       tickingStarted := if started then [entry.entity] else []
       tickingStopped := [] },
      if visibility.isTicking then { s with tickList := (s.tickList.insert id).1 } else s)

/-- What a change of a chunk's visibility does to one of its entities. -/
def changeVisibility (previous new : EntityVisibility) (state : EntityLifecycleChanges × ManagerState F) (id : Int) :
    EntityLifecycleChanges × ManagerState F :=
  match state.2.liveById.lookup id with
  | none => state
  | some entry =>
    let old := entry.lifecycleVisibility previous
    let new := entry.lifecycleVisibility new
    if entry.ownership ≠ .managerOwned ∨ old = new then state
    else
      let stops := old.isTicking && !new.isTicking && (state.2.tickList.remove id).2
      let hides := old.isAccessible && !new.isAccessible
      let shows := !old.isAccessible && new.isAccessible
      let starts := !old.isTicking && new.isTicking && (state.2.tickList.insert id).2
      (state.1.extend
        { trackingStarted := if shows then [entry.entity] else []
          trackingStopped := if hides then [entry.entity] else []
          tickingStarted := if starts then [entry.entity] else []
          tickingStopped := if stops then [entry.entity] else [] },
        { state.2 with
          tickList := state.2.tickList.toggle id old.isTicking new.isTicking
          accessibleOrder := state.2.accessibleOrder.toggle id old.isAccessible new.isAccessible })

def applyChunkVisibilityChange (chunk : ChunkPos) (previous new : EntityVisibility) : EntityLifecycleChanges × ManagerState F :=
  (s.entityIdsInChunkOrder chunk).foldl (changeVisibility previous new) (.none, s)

def updateChunkVisibility (chunk : ChunkPos) (visibility : EntityVisibility) : EntityLifecycleChanges × ManagerState F :=
  let previous := s.chunkVisibilityAt chunk
  let s := { s with chunkVisibility := s.chunkVisibility.insert chunk visibility }
  if previous = visibility then (.none, s) else s.applyChunkVisibilityChange chunk previous visibility

def reserveInboundChunk (chunk : ChunkPos) : ManagerState F :=
  { s with inboundChunks := s.inboundChunks.insert chunk ((s.inboundChunks.lookup chunk).getD 0 + 1) }

def releaseInboundChunk (chunk : ChunkPos) : ManagerState F :=
  match s.inboundChunks.lookup chunk with
  | none => s
  | some count =>
    if count - 1 = 0 then { s with inboundChunks := s.inboundChunks.erase chunk }
    else { s with inboundChunks := s.inboundChunks.insert chunk (count - 1) }

structure ChunkEntityLoadResult where
  restored : List SharedEntity
  trackingStarted : List SharedEntity
  tickingStarted : List SharedEntity
  needsSave : Bool

/-- Brings one retained entity back, or lets a removed one wait for its save. -/
def restore (chunk : ChunkPos) (state : ChunkEntityLoadResult × ManagerState F) (entry : EntityEntry F) :
    Option (ChunkEntityLoadResult × ManagerState F) :=
  if (entities entry.entity).removalReason.isSome then
    if entry.shouldSave entities then
      some ({ state.1 with needsSave := true }, { state.2 with
        savePendingByChunk := state.2.savePendingByChunk.insert chunk
          ((state.2.savePendingByChunk.lookup chunk).getD [] ++ [entry]) })
    else some state
  else do
    let s ← state.2.insertLiveEntry entities entry
    let (lifecycle, s) := s.applyEntityLifecycleAfterInsert entry.entity.id
    return ({ state.1 with
      restored := state.1.restored ++ [entry.entity]
      trackingStarted := state.1.trackingStarted ++ lifecycle.trackingStarted
      tickingStarted := state.1.tickingStarted ++ lifecycle.tickingStarted }, s)

def onChunkLoaded (chunk : ChunkPos) : Option (ChunkEntityLoadResult × ManagerState F) :=
  let visible := if (s.chunkVisibility.lookup chunk).isSome then s.chunkVisibility else s.chunkVisibility.insert chunk .hidden
  let retained := (s.unloadingByChunk.lookup chunk).getD []
  let s := { s with
    chunkVisibility := visible
    inboundChunks := s.inboundChunks.erase chunk
    unloadingByChunk := s.unloadingByChunk.erase chunk }
  retained.foldlM (restore entities chunk) (⟨[], [], [], false⟩, s)

def pushUnique (seen : List SharedEntity) (entity : SharedEntity) : List SharedEntity :=
  if seen.any fun e => decide (e.id = entity.id) then seen else seen ++ [entity]

structure Retention (F : Type) [Coordinate F] where
  state : ManagerState F
  visited : List Int
  retained : List (EntityEntry F)
  trackingStopped : List SharedEntity

/-- Takes one entity out of the live ones, unless it is owned elsewhere; its passengers come next. -/
def retainOne (r : Retention F) (id : Int) : Option (Retention F × List Int) :=
  if id ∈ r.visited then some (r, [])
  else
    match r.state.removeLiveEntry id with
    | none => some ({ r with visited := id :: r.visited }, [])
    | some (entry, removed) =>
      if entry.ownership ≠ .managerOwned then do
        let s ← removed.insertLiveEntry entities entry
        return ({ r with
          state := if s.ticks entry then { s with tickList := (s.tickList.insert id).1 } else s
          visited := id :: r.visited }, [])
      else
        some ({
          state := removed
          visited := id :: r.visited
          retained := r.retained ++ [entry]
          trackingStopped := pushUnique r.trackingStopped entry.entity }, (entities entry.entity).passengers.map SharedEntity.id)

/-- The live entities that a state has. -/
def liveCount : Nat := s.liveById.count fun _ => true

variable {entities} {s}

theorem liveCount_erase {id : Int} {entry : EntityEntry F} (h : s.liveById.lookup id = some entry) :
    AssocList.count (fun _ => true) (s.liveById.erase id) + 1 = s.liveCount := by
  have hcount := AssocList.count_erase (m := s.liveById) (k := id) fun _ => true
  rw [h] at hcount
  exact hcount

theorem removeLiveEntry_eq_some {id : Int} {entry : EntityEntry F} {s' : ManagerState F} :
    s.removeLiveEntry id = some (entry, s') ↔ s.liveById.lookup id = some entry ∧ s' = { s with
      liveById := s.liveById.erase id
      tickList := (s.tickList.remove id).1
      liveByUuid := s.liveByUuid.erase entry.uuid
      accessibleOrder := (s.accessibleOrder.remove id).1
      bySection := s.bySection.remove (PackedSectionPos.fromSection entry.section_) id
      bySpatialCell := s.bySpatialCell.removeAll id entry.spatialCells } := by
  unfold removeLiveEntry
  rw [Option.map_eq_some_iff]
  constructor
  · rintro ⟨entry', hlookup, heq⟩
    obtain ⟨rfl, rfl⟩ := Prod.mk.inj heq
    exact ⟨hlookup, rfl⟩
  · rintro ⟨hlookup, rfl⟩
    exact ⟨entry, hlookup, rfl⟩

/-- What an insertion files. -/
def filed (entities : SharedEntity → EntityData F) (s : ManagerState F) (entry : EntityEntry F) : EntityEntry F := { entry with
  boundingBox := (entities entry.entity).boundingBox
  sectionOrder := s.nextSectionOrder }

theorem insertLiveEntry_eq_some {entry : EntityEntry F} {s' : ManagerState F}
    (h : s.insertLiveEntry entities entry = some s') :
    s.liveById.lookup entry.entity.id = none ∧ s.liveByUuid.lookup entry.uuid = none ∧ s.nextSectionOrder < 2 ^ 64 - 1 ∧
    ∃ cells, s.bySpatialCell.addRankedAll entry.entity.id (above s.liveById (filed entities s entry).queryOrder)
        (filed entities s entry).spatialCells = some cells ∧
      s' = { s with
        liveByUuid := s.liveByUuid.insert entry.uuid entry.entity.id
        nextSectionOrder := s.nextSectionOrder + 1
        bySection := s.bySection.add (PackedSectionPos.fromSection entry.section_) entry.entity.id
        bySpatialCell := cells
        liveById := s.liveById.insert entry.entity.id (filed entities s entry)
        accessibleOrder :=
          if s.isAccessible entry then (s.accessibleOrder.insert entry.entity.id).1 else s.accessibleOrder } := by
  unfold insertLiveEntry at h
  dsimp only at h
  split at h
  · cases h
  · rename_i hnew
    rw [not_or, not_or, not_not] at hnew
    obtain ⟨cells, hadd, rfl⟩ := Option.map_eq_some_iff.mp h
    exact ⟨Option.not_isSome_iff_eq_none.mp hnew.1, Option.not_isSome_iff_eq_none.mp hnew.2.1, hnew.2.2, cells, hadd, rfl⟩

theorem liveCount_insertLiveEntry {entry : EntityEntry F} {s' : ManagerState F}
    (h : s.insertLiveEntry entities entry = some s') : s'.liveCount = s.liveCount + 1 := by
  obtain ⟨hnew, -, -, cells, -, rfl⟩ := insertLiveEntry_eq_some h
  unfold liveCount
  dsimp only
  rw [AssocList.count_insert_new _ hnew]
  exact Nat.add_comm 1 _

/-- Each step takes a live entity or has no passengers to add. -/
theorem retainOne_measure {r r' : Retention F} {id : Int} {passengers : List Int}
    (h : retainOne entities r id = some (r', passengers)) :
    r'.state.liveCount < r.state.liveCount ∨ r'.state.liveCount = r.state.liveCount ∧ passengers = [] := by
  unfold retainOne at h
  split at h
  · cases h
    exact Or.inr ⟨rfl, rfl⟩
  · cases hremove : r.state.removeLiveEntry id with
    | none =>
      rw [hremove] at h
      cases h
      exact Or.inr ⟨rfl, rfl⟩
    | some found =>
      obtain ⟨entry, removed⟩ := found
      obtain ⟨hlookup, hremoved⟩ := removeLiveEntry_eq_some.mp hremove
      have hcount : removed.liveCount + 1 = r.state.liveCount := by
        rw [hremoved]
        exact liveCount_erase hlookup
      rw [hremove] at h
      dsimp only at h
      split at h
      · obtain ⟨s', hinsert, heq⟩ := Option.bind_eq_some_iff.mp h
        cases heq
        have hinserted := liveCount_insertLiveEntry hinsert
        refine Or.inr ⟨?_, rfl⟩
        dsimp only
        split
        · exact hinserted.trans hcount
        · exact hinserted.trans hcount
      · cases h
        exact Or.inl (by dsimp only; omega)

variable (entities) (s)

/-- Works off a list of entities, each followed by its passengers. -/
def retainTrees (r : Retention F) (pending : List Int) : Option (Retention F) :=
  match pending with
  | [] => some r
  | id :: rest =>
    match _hone : retainOne entities r id with
    | none => none
    | some (r', passengers) => retainTrees r' (passengers ++ rest)
termination_by (r.state.liveCount, pending.length)
decreasing_by
  rcases retainOne_measure ‹_› with hlt | ⟨heq, rfl⟩
  · exact Prod.Lex.left _ _ hlt
  · rw [heq]
    exact Prod.Lex.right _ (Nat.lt_succ_self _)

structure ChunkEntityUnloadStart where
  retained : List SharedEntity
  trackingStopped : List SharedEntity
  tickingStopped : List SharedEntity

def beginChunkUnload (chunk : ChunkPos) : Option (ChunkEntityUnloadStart × ManagerState F) := do
  let previous := s.chunkVisibilityAt chunk
  let hidden := { s with chunkVisibility := s.chunkVisibility.erase chunk }
  let (lifecycle, changed) := hidden.applyChunkVisibilityChange chunk previous .hidden
  let managed := ((hidden.entityIdsInChunkOrder chunk).filterMap changed.liveById.lookup).filter fun entry =>
    decide (entry.ownership = .managerOwned)
  let stopped := managed.foldl (fun seen entry => pushUnique seen entry.entity) lifecycle.trackingStopped
  let roots := (managed.filter fun entry => (entities entry.entity).vehicle.isNone).map fun entry => entry.entity.id
  let r ← retainTrees entities ⟨changed, [], [], stopped⟩ roots
  let unloading := (r.state.unloadingByChunk.lookup chunk).getD [] ++ r.retained
  return (⟨r.retained.map EntityEntry.entity, r.trackingStopped, lifecycle.tickingStopped⟩,
    if r.retained.isEmpty then r.state else { r.state with unloadingByChunk := r.state.unloadingByChunk.insert chunk unloading })

/-- The retained entities are let go; their UUIDs are reported. -/
def finalizeChunkUnload (chunk : ChunkPos) : List Nat × ManagerState F :=
  (((s.unloadingByChunk.lookup chunk).getD []).map EntityEntry.uuid,
    { s with unloadingByChunk := s.unloadingByChunk.erase chunk })

/-! ## Membership -/

/-- The entries that the manager retains or keeps for a save. -/
def keptEntries : List (EntityEntry F) :=
  (s.unloadingByChunk.pairs.flatMap Prod.snd) ++ s.savePendingByChunk.pairs.flatMap Prod.snd

def containsUuid (uuid : Nat) : Bool :=
  (s.liveByUuid.lookup uuid).isSome || s.keptEntries.any fun entry => decide (entry.uuid = uuid)

def containsId (id : Int) : Bool :=
  (s.liveById.lookup id).isSome || s.keptEntries.any fun entry => decide (entry.entity.id = id)

/-- An id that is known is a panic. -/
def validateLiveEntries (ownership : EntityOwnership) (requireLoadedChunks : Bool) :
    List (EntityEntry F) → Option (Except AddEntityError Unit)
  | [] => some (.ok ())
  | entry :: rest =>
    if s.containsId entry.entity.id then none
    else if s.containsUuid entry.uuid then some (.error (.duplicateUuid entry.entity.id entry.uuid))
    else if requireLoadedChunks && decide (ownership = .managerOwned) && (s.chunkVisibility.lookup entry.chunk).isNone then
      some (.error (.chunkNotLoaded entry.entity.id entry.chunk))
    else validateLiveEntries ownership requireLoadedChunks rest

def checkedLiveEntry (entity : SharedEntity) (ownership : EntityOwnership) : Except AddEntityError (EntityEntry F) :=
  if (entities entity).removalReason.isSome then .error (.removedEntity entity.id) else .ok (.new entities entity ownership)

def addLiveEntity (entity : SharedEntity) (ownership : EntityOwnership) :
    Option (Except AddEntityError EntityLifecycleChanges × ManagerState F) :=
  match checkedLiveEntry entities entity ownership with
  | .error e => some (.error e, s)
  | .ok entry =>
    match s.validateLiveEntries ownership true [entry] with
    | none => none
    | some (.error e) => some (.error e, s)
    | some (.ok ()) => do
      let s ← s.insertLiveEntry entities entry
      let (lifecycle, s) := s.applyEntityLifecycleAfterInsert entity.id
      return (.ok lifecycle, s)

/-- The ids of a tree must differ; equal UUIDs are an error. -/
def validateTree : List (EntityEntry F) → List Nat → List Int → Option (Except AddEntityError Unit)
  | [], _, _ => some (.ok ())
  | entry :: rest, uuids, ids =>
    if entry.entity.id ∈ ids then none
    else if entry.uuid ∈ uuids then some (.error (.duplicateUuid entry.entity.id entry.uuid))
    else validateTree rest (entry.uuid :: uuids) (entry.entity.id :: ids)

def addLiveEntityTree (tree : List SharedEntity) (ownership : EntityOwnership) :
    Option (Except AddEntityError EntityLifecycleChanges × ManagerState F) :=
  match tree.mapM fun entity => checkedLiveEntry entities entity ownership with
  | .error e => some (.error e, s)
  | .ok entries =>
    match validateTree entries [] [], s.validateLiveEntries ownership false entries with
    | none, _ => none
    | some (.error e), _ => some (.error e, s)
    | some (.ok ()), none => none
    | some (.ok ()), some (.error e) => some (.error e, s)
    | some (.ok ()), some (.ok ()) => do
      let s ← entries.foldlM (fun s entry => s.insertLiveEntry entities entry) s
      let (lifecycle, s) := entries.foldl (fun state entry =>
        let (changes, s) := state.2.applyEntityLifecycleAfterInsert entry.entity.id
        (state.1.extend changes, s)) (EntityLifecycleChanges.none, s)
      return (.ok lifecycle, s)

def removeLiveEntity (id : Int) (reason : RemovalReason) : Option SharedEntity × ManagerState F :=
  match s.removeLiveEntry id with
  | none => (none, s)
  | some (entry, s) =>
    (some entry.entity,
      if reason.shouldSave && entry.shouldSave entities then
        { s with
          savePendingByChunk := s.savePendingByChunk.insert entry.chunk
            ((s.savePendingByChunk.lookup entry.chunk).getD [] ++ [entry]) }
      else s)

def onChunkSaved (chunk : ChunkPos) (savedEntityIds : List Int) : ManagerState F :=
  if savedEntityIds.isEmpty then s
  else
    match s.savePendingByChunk.lookup chunk with
    | none => s
    | some entries =>
      let rest := entries.filter fun entry => decide (entry.entity.id ∉ savedEntityIds)
      if rest.isEmpty then { s with savePendingByChunk := s.savePendingByChunk.erase chunk }
      else { s with savePendingByChunk := s.savePendingByChunk.insert chunk rest }

end ManagerState
end Foton.Entities

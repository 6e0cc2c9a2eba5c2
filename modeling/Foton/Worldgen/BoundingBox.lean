import Foton.Lib.Candidate

/-!
# Integer bounding boxes

Boxes of blocks, both corners included. A piece is compared in quarter blocks
after it has been shrunk by a quarter on each side; on blocks this comes to
the same as the inclusive comparison.
-/

namespace Foton
namespace Worldgen

structure IVec3 where
  x : Int
  y : Int
  z : Int
  deriving DecidableEq, Repr

structure BoundingBox where
  min : IVec3
  max : IVec3
  ordered : min.x ≤ max.x ∧ min.y ≤ max.y ∧ min.z ≤ max.z
  deriving DecidableEq

namespace BoundingBox

/-- The corners are ordered on each axis. -/
def new (pos1 pos2 : IVec3) : BoundingBox where
  min := ⟨Min.min pos1.x pos2.x, Min.min pos1.y pos2.y, Min.min pos1.z pos2.z⟩
  max := ⟨Max.max pos1.x pos2.x, Max.max pos1.y pos2.y, Max.max pos1.z pos2.z⟩
  ordered := by refine ⟨?_, ?_, ?_⟩ <;> dsimp only <;> omega

def axisOverlaps (min1 max1 min2 max2 : Int) : Bool := min1 ≤ max2 && max1 ≥ min2

def intersects (a b : BoundingBox) : Bool :=
  axisOverlaps a.min.x a.max.x b.min.x b.max.x &&
    axisOverlaps a.min.y a.max.y b.min.y b.max.y &&
    axisOverlaps a.min.z a.max.z b.min.z b.max.z

def width (b : BoundingBox) : Int := b.max.x - b.min.x + 1

def height (b : BoundingBox) : Int := b.max.y - b.min.y + 1

def depth (b : BoundingBox) : Int := b.max.z - b.min.z + 1

/-- The blocks of the box. -/
def points (b : BoundingBox) : Set IVec3 := fun p =>
  (b.min.x ≤ p.x ∧ p.x ≤ b.max.x) ∧ (b.min.y ≤ p.y ∧ p.y ≤ b.max.y) ∧ (b.min.z ≤ p.z ∧ p.z ≤ b.max.z)

theorem mem_points {b : BoundingBox} {p : IVec3} : p ∈ b.points ↔
    (b.min.x ≤ p.x ∧ p.x ≤ b.max.x) ∧ (b.min.y ≤ p.y ∧ p.y ≤ b.max.y) ∧ (b.min.z ≤ p.z ∧ p.z ≤ b.max.z) :=
  Iff.rfl

theorem mem_points_new {pos1 pos2 p : IVec3} (hx : pos1.x ≤ p.x ∧ p.x ≤ pos2.x) (hy : pos1.y ≤ p.y ∧ p.y ≤ pos2.y)
    (hz : pos1.z ≤ p.z ∧ p.z ≤ pos2.z) : p ∈ (new pos1 pos2).points := by
  rw [mem_points]
  simp only [new]
  omega

theorem intersects_eq_true (a b : BoundingBox) : a.intersects b = true ↔
    (a.min.x ≤ b.max.x ∧ b.min.x ≤ a.max.x) ∧ (a.min.y ≤ b.max.y ∧ b.min.y ≤ a.max.y) ∧
      (a.min.z ≤ b.max.z ∧ b.min.z ≤ a.max.z) := by
  simp [intersects, axisOverlaps, and_assoc]

/-- Boxes that overlap on each axis have the larger of their lower corners in common. -/
theorem intersects_iff (a b : BoundingBox) : a.intersects b = true ↔ Meets points a b := by
  have ha := a.ordered
  have hb := b.ordered
  rw [intersects_eq_true]
  constructor
  · intro h
    refine ⟨⟨Max.max a.min.x b.min.x, Max.max a.min.y b.min.y, Max.max a.min.z b.min.z⟩, ?_, ?_⟩ <;>
      rw [mem_points] <;> dsimp only <;> omega
  · intro ⟨p, hpa, hpb⟩
    rw [mem_points] at hpa hpb
    omega

end BoundingBox

/-- A box in quarter blocks. -/
structure DeflatedQuarters where
  min : IVec3
  max : IVec3
  deriving DecidableEq

namespace DeflatedQuarters

def fromPiece (bbox : BoundingBox) : DeflatedQuarters where
  min := ⟨bbox.min.x * 4 + 1, bbox.min.y * 4 + 1, bbox.min.z * 4 + 1⟩
  max := ⟨bbox.max.x * 4 + 3, bbox.max.y * 4 + 3, bbox.max.z * 4 + 3⟩

def boundaryFrom (bbox : BoundingBox) : DeflatedQuarters where
  min := ⟨bbox.min.x * 4, bbox.min.y * 4, bbox.min.z * 4⟩
  max := ⟨bbox.max.x * 4 + 4, bbox.max.y * 4 + 4, bbox.max.z * 4 + 4⟩

def isEmpty (q : DeflatedQuarters) : Bool :=
  q.min.x ≥ q.max.x || q.min.y ≥ q.max.y || q.min.z ≥ q.max.z

def contains (q inner : DeflatedQuarters) : Bool :=
  q.min.x ≤ inner.min.x && q.min.y ≤ inner.min.y && q.min.z ≤ inner.min.z &&
    q.max.x ≥ inner.max.x && q.max.y ≥ inner.max.y && q.max.z ≥ inner.max.z

def intersects (q other : DeflatedQuarters) : Bool :=
  q.min.x < other.max.x && q.max.x > other.min.x &&
    q.min.y < other.max.y && q.max.y > other.min.y &&
    q.min.z < other.max.z && q.max.z > other.min.z

theorem intersects_iff (q other : DeflatedQuarters) : q.intersects other = true ↔
    (q.min.x < other.max.x ∧ other.min.x < q.max.x) ∧ (q.min.y < other.max.y ∧ other.min.y < q.max.y) ∧
      (q.min.z < other.max.z ∧ other.min.z < q.max.z) := by
  simp [intersects, and_assoc]

theorem contains_iff (q inner : DeflatedQuarters) : q.contains inner = true ↔
    (q.min.x ≤ inner.min.x ∧ q.min.y ≤ inner.min.y ∧ q.min.z ≤ inner.min.z) ∧
      (inner.max.x ≤ q.max.x ∧ inner.max.y ≤ q.max.y ∧ inner.max.z ≤ q.max.z) := by
  simp [contains, and_assoc]

theorem fromPiece_intersects (a b : BoundingBox) :
    (fromPiece a).intersects (fromPiece b) = true ↔ Meets BoundingBox.points a b := by
  rw [← BoundingBox.intersects_iff, BoundingBox.intersects_eq_true, intersects_iff]
  dsimp only [fromPiece]
  omega

theorem boundaryFrom_intersects (a b : BoundingBox) :
    (boundaryFrom a).intersects (fromPiece b) = true ↔ Meets BoundingBox.points a b := by
  rw [← BoundingBox.intersects_iff, BoundingBox.intersects_eq_true, intersects_iff]
  dsimp only [fromPiece, boundaryFrom]
  omega

theorem fromPiece_not_isEmpty (b : BoundingBox) : (fromPiece b).isEmpty = false := by
  obtain ⟨hx, hy, hz⟩ := b.ordered
  simp [isEmpty, fromPiece]
  omega

theorem points_subset_of_contains {a b : BoundingBox} (h : (boundaryFrom a).contains (fromPiece b) = true) :
    b.points ⊆ a.points := by
  rw [contains_iff] at h
  dsimp only [fromPiece, boundaryFrom] at h
  intro p hp
  rw [BoundingBox.mem_points] at hp ⊢
  omega

end DeflatedQuarters

end Worldgen
end Foton

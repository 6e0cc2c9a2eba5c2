import Mathlib.Algebra.Order.Ring.Int
import Mathlib.Algebra.Order.Group.Int
import Mathlib.Tactic.Linarith

/-!
# The chunk view of a player

The view is round; the loops run over the square around it. The difference of
two views is taken over one square around both when their squares overlap, and
view by view otherwise.
-/

namespace Foton
namespace PlayerIndex

structure ChunkPos where
  x : Int
  z : Int
  deriving DecidableEq, Repr

structure PlayerChunkView where
  center : ChunkPos
  viewDistance : Nat
  deriving DecidableEq, Repr

namespace PlayerChunkView

def minX (view : PlayerChunkView) : Int := view.center.x - view.viewDistance - 1

def maxX (view : PlayerChunkView) : Int := view.center.x + view.viewDistance + 1

def minZ (view : PlayerChunkView) : Int := view.center.z - view.viewDistance - 1

def maxZ (view : PlayerChunkView) : Int := view.center.z + view.viewDistance + 1

def isWithinDistance (centerX centerZ viewDistance chunkX chunkZ : Int) (includeNeighbors : Bool) : Bool :=
  let bufferRange : Int := if includeNeighbors then 2 else 1
  let deltaX := max 0 (|chunkX - centerX| - bufferRange)
  let deltaZ := max 0 (|chunkZ - centerZ| - bufferRange)
  deltaX * deltaX + deltaZ * deltaZ < viewDistance * viewDistance

def contains (view : PlayerChunkView) (pos : ChunkPos) : Bool :=
  isWithinDistance view.center.x view.center.z view.viewDistance pos.x pos.z true

/-- The range with both ends. -/
def inclusive (lo hi : Int) : List Int :=
  (List.range (hi - lo + 1).toNat).map fun (i : Nat) => lo + i

/-- Two nested loops. -/
def square (minX maxX minZ maxZ : Int) : List ChunkPos :=
  (inclusive minX maxX).flatMap fun x => (inclusive minZ maxZ).map fun z => ⟨x, z⟩

/-- The chunks `for_each` visits, in order. -/
def forEach (view : PlayerChunkView) : List ChunkPos :=
  (square view.minX view.maxX view.minZ view.maxZ).filter view.contains

def squareIntersects (view other : PlayerChunkView) : Bool :=
  view.minX ≤ other.maxX && view.maxX ≥ other.minX && view.minZ ≤ other.maxZ && view.maxZ ≥ other.minZ

inductive Change
  | added (pos : ChunkPos)
  | removed (pos : ChunkPos)
  deriving DecidableEq, Repr

/-- The calls of `on_added` and `on_removed`, in order. -/
def difference (old new : PlayerChunkView) : List Change :=
  if old = new then
    []
  else if old.squareIntersects new then
    (square (min old.minX new.minX) (max old.maxX new.maxX) (min old.minZ new.minZ) (max old.maxZ new.maxZ)).filterMap
      fun pos =>
        let saw := old.contains pos
        let sees := new.contains pos
        if saw ≠ sees then some (if sees then .added pos else .removed pos) else none
  else
    old.forEach.map .removed ++ new.forEach.map .added

def addedChunks (changes : List Change) : List ChunkPos :=
  changes.filterMap fun
    | .added pos => some pos
    | .removed _ => none

def removedChunks (changes : List Change) : List ChunkPos :=
  changes.filterMap fun
    | .added _ => none
    | .removed pos => some pos

/-! ## The loops reach the view -/

theorem mem_inclusive {lo hi n : Int} : n ∈ inclusive lo hi ↔ lo ≤ n ∧ n ≤ hi := by
  simp only [inclusive, List.mem_map, List.mem_range]
  constructor
  · intro ⟨i, hlt, heq⟩
    omega
  · intro ⟨hlo, hhi⟩
    exact ⟨(n - lo).toNat, by omega, by omega⟩

theorem mem_square {minX maxX minZ maxZ : Int} {pos : ChunkPos} :
    pos ∈ square minX maxX minZ maxZ ↔ (minX ≤ pos.x ∧ pos.x ≤ maxX) ∧ (minZ ≤ pos.z ∧ pos.z ≤ maxZ) := by
  obtain ⟨x, z⟩ := pos
  simp [square, mem_inclusive]

/-- A square below the square of the radius comes from a length below the radius. -/
theorem lt_of_mul_self_lt {a b : Int} {r : Nat} (h : a * a + b * b < r * r) : a < r := by
  by_contra hle
  have hr : (0 : Int) ≤ r := Int.natCast_nonneg r
  have ha : (r : Int) * r ≤ a * a := Int.mul_le_mul (by omega) (by omega) hr (by omega)
  have hb : 0 ≤ b * b := mul_self_nonneg b
  omega

theorem mem_square_of_contains {view : PlayerChunkView} {pos : ChunkPos} (h : view.contains pos = true) :
    (view.minX ≤ pos.x ∧ pos.x ≤ view.maxX) ∧ (view.minZ ≤ pos.z ∧ pos.z ≤ view.maxZ) := by
  simp only [contains, isWithinDistance, if_true, decide_eq_true_eq] at h
  have hx := lt_of_mul_self_lt h
  rw [Int.add_comm] at h
  have hz := lt_of_mul_self_lt h
  have hx' := le_abs_self (pos.x - view.center.x)
  have hx'' := neg_abs_le (pos.x - view.center.x)
  have hz' := le_abs_self (pos.z - view.center.z)
  have hz'' := neg_abs_le (pos.z - view.center.z)
  simp only [minX, maxX, minZ, maxZ]
  omega

theorem mem_forEach {view : PlayerChunkView} {pos : ChunkPos} : pos ∈ view.forEach ↔ view.contains pos = true := by
  rw [forEach, List.mem_filter, mem_square]
  exact ⟨And.right, fun h => ⟨mem_square_of_contains h, h⟩⟩

theorem mem_addedChunks {changes : List Change} {pos : ChunkPos} : pos ∈ addedChunks changes ↔ .added pos ∈ changes := by
  simp only [addedChunks, List.mem_filterMap]
  constructor
  · intro ⟨change, hmem, heq⟩
    cases change with
    | added p =>
      cases heq
      exact hmem
    | removed p => cases heq
  · intro h
    exact ⟨_, h, rfl⟩

theorem mem_removedChunks {changes : List Change} {pos : ChunkPos} :
    pos ∈ removedChunks changes ↔ .removed pos ∈ changes := by
  simp only [removedChunks, List.mem_filterMap]
  constructor
  · intro ⟨change, hmem, heq⟩
    cases change with
    | added p => cases heq
    | removed p =>
      cases heq
      exact hmem
  · intro h
    exact ⟨_, h, rfl⟩

theorem squareIntersects_of_contains {view other : PlayerChunkView} {pos : ChunkPos} (h : view.contains pos = true)
    (h' : other.contains pos = true) : view.squareIntersects other = true := by
  have hview := mem_square_of_contains h
  have hother := mem_square_of_contains h'
  simp only [squareIntersects, Bool.and_eq_true, decide_eq_true_eq]
  omega

theorem mem_difference_overlap {old new : PlayerChunkView} (hne : old ≠ new) (h : old.squareIntersects new = true)
    (change : Change) : change ∈ difference old new ↔ ∃ pos, old.contains pos ≠ new.contains pos ∧
      change = if new.contains pos then .added pos else .removed pos := by
  simp only [difference, if_neg hne, h, if_true, List.mem_filterMap]
  constructor
  · intro ⟨pos, _, heq⟩
    by_cases hsaw : old.contains pos = new.contains pos
    · simp [hsaw] at heq
    · simp only [ne_eq, hsaw, not_false_eq_true, if_true, Option.some.injEq] at heq
      exact ⟨pos, hsaw, heq.symm⟩
  · intro ⟨pos, hsaw, heq⟩
    refine ⟨pos, ?_, by simp [hsaw, heq]⟩
    rw [mem_square]
    cases hold : old.contains pos with
    | true =>
      have hin := mem_square_of_contains hold
      omega
    | false =>
      have hnew : new.contains pos = true := by simpa [hold] using hsaw
      have hin := mem_square_of_contains hnew
      omega

theorem mem_difference_apart {old new : PlayerChunkView} (hne : old ≠ new) (h : ¬ old.squareIntersects new = true)
    (change : Change) : change ∈ difference old new ↔ ∃ pos, old.contains pos ≠ new.contains pos ∧
      change = if new.contains pos then .added pos else .removed pos := by
  have hnotboth : ∀ pos, old.contains pos = true → new.contains pos = true → False :=
    fun pos hold hnew => h (squareIntersects_of_contains hold hnew)
  simp only [difference, if_neg hne, if_neg h, List.mem_append, List.mem_map, mem_forEach]
  constructor
  · intro hmem
    rcases hmem with ⟨pos, hold, heq⟩ | ⟨pos, hnew, heq⟩
    · have hnew : new.contains pos = false := by simpa using hnotboth pos hold
      exact ⟨pos, by simp [hold, hnew], by simp [hnew, heq]⟩
    · have hold : old.contains pos = false := by
        by_contra hold
        exact hnotboth pos (by simpa using hold) hnew
      exact ⟨pos, by simp [hold, hnew], by simp [hnew, heq]⟩
  · intro hchange
    obtain ⟨pos, hsaw, heq⟩ := hchange
    cases hnew : new.contains pos with
    | true => exact Or.inr ⟨pos, hnew, by simp [heq, hnew]⟩
    | false => exact Or.inl ⟨pos, by simpa [hnew] using hsaw, by simp [heq, hnew]⟩

/-- On either path each chunk that is in one of the views is reported for what it is. -/
theorem mem_difference {old new : PlayerChunkView} (change : Change) :
    change ∈ difference old new ↔ ∃ pos, old.contains pos ≠ new.contains pos ∧
      change = if new.contains pos then .added pos else .removed pos := by
  by_cases hne : old = new
  · subst hne
    simp [difference]
  by_cases h : old.squareIntersects new = true
  · exact mem_difference_overlap hne h change
  · exact mem_difference_apart hne h change

theorem mem_addedChunks_difference {old new : PlayerChunkView} {pos : ChunkPos} :
    pos ∈ addedChunks (difference old new) ↔ old.contains pos = false ∧ new.contains pos = true := by
  rw [mem_addedChunks, mem_difference]
  constructor
  · intro ⟨pos', hsaw, heq⟩
    cases hnew : new.contains pos' with
    | true =>
      rw [hnew] at heq hsaw
      cases heq
      exact ⟨by simpa using hsaw, hnew⟩
    | false => simp [hnew] at heq
  · intro ⟨hold, hnew⟩
    exact ⟨pos, by simp [hold, hnew], by simp [hnew]⟩

theorem mem_removedChunks_difference {old new : PlayerChunkView} {pos : ChunkPos} :
    pos ∈ removedChunks (difference old new) ↔ old.contains pos = true ∧ new.contains pos = false := by
  rw [mem_removedChunks, mem_difference]
  constructor
  · intro ⟨pos', hsaw, heq⟩
    cases hnew : new.contains pos' with
    | true => simp [hnew] at heq
    | false =>
      rw [hnew] at heq hsaw
      cases heq
      exact ⟨by simpa using hsaw, hnew⟩
  · intro ⟨hold, hnew⟩
    exact ⟨pos, by simp [hold, hnew], by simp [hnew]⟩

end PlayerChunkView
end PlayerIndex
end Foton

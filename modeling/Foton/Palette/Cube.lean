import Mathlib.Data.List.Basic
import Mathlib.Data.Nat.Basic
import Mathlib.Tactic.Ring

/-!
# Cubes

A three-dimensional array indexed by y, z, x, and its cells in memory order.
-/

namespace Foton

/-- 3d array indexed by y, z, x. -/
abbrev Cube (V : Type) (dim : Nat) : Type := Vector (Vector (Vector V dim) dim) dim

namespace Cube

variable {V : Type} {dim : Nat}

def volume (dim : Nat) : Nat := dim * dim * dim

/-- The place of a cell in memory order. -/
def index (x y z : Fin dim) : Nat := (y * dim + z) * dim + x

def filled (value : V) : Cube V dim := Vector.replicate dim (Vector.replicate dim (Vector.replicate dim value))

def get (cube : Cube V dim) (x y z : Fin dim) : V := cube[y][z][x]

def set (cube : Cube V dim) (x y z : Fin dim) (value : V) : Cube V dim :=
  Vector.set cube y (Vector.set cube[y] z (Vector.set cube[y][z] x value))

/-- The cells in memory order. -/
def cells (cube : Cube V dim) : List V := (Vector.flatten (Vector.flatten cube)).toList

/-- The cube whose cells in memory order are given by `f`. -/
def ofCells (f : Fin dim → Fin dim → Fin dim → V) : Cube V dim :=
  Vector.ofFn fun y => Vector.ofFn fun z => Vector.ofFn fun x => f x y z

theorem index_lt (x y z : Fin dim) : index x y z < volume dim := by
  have hx := x.isLt
  have hy : (y : Nat) * dim + z < dim * dim := by
    calc (y : Nat) * dim + z < y * dim + dim := by omega
      _ = (y + 1) * dim := by ring
      _ ≤ dim * dim := Nat.mul_le_mul_right dim y.isLt
  unfold index volume
  calc ((y : Nat) * dim + z) * dim + x < (y * dim + z) * dim + dim := by omega
    _ = (y * dim + z + 1) * dim := by ring
    _ ≤ dim * dim * dim := Nat.mul_le_mul_right dim hy

theorem index_div (x y z : Fin dim) : index x y z / dim / dim = y := by
  have hpos : 0 < dim := x.pos
  unfold index
  rw [Nat.add_comm, Nat.add_mul_div_right _ _ hpos, Nat.div_eq_of_lt x.isLt, Nat.zero_add, Nat.add_comm,
    Nat.add_mul_div_right _ _ hpos, Nat.div_eq_of_lt z.isLt, Nat.zero_add]

theorem index_mid (x y z : Fin dim) : index x y z / dim % dim = z := by
  have hpos : 0 < dim := x.pos
  unfold index
  rw [Nat.add_comm, Nat.add_mul_div_right _ _ hpos, Nat.div_eq_of_lt x.isLt, Nat.zero_add, Nat.add_comm,
    Nat.add_mul_mod_self_right, Nat.mod_eq_of_lt z.isLt]

theorem index_mod (x y z : Fin dim) : index x y z % dim = x := by
  unfold index
  rw [Nat.add_comm, Nat.add_mul_mod_self_right, Nat.mod_eq_of_lt x.isLt]

theorem index_inj {x y z x' y' z' : Fin dim} (h : index x y z = index x' y' z') : x = x' ∧ y = y' ∧ z = z' := by
  refine ⟨Fin.ext ?_, Fin.ext ?_, Fin.ext ?_⟩
  · rw [← index_mod x y z, h, index_mod]
  · rw [← index_div x y z, h, index_div]
  · rw [← index_mid x y z, h, index_mid]

theorem exists_index {i : Nat} (h : i < volume dim) : ∃ x y z : Fin dim, index x y z = i := by
  unfold volume at h
  have hpos : 0 < dim := by
    rcases Nat.eq_zero_or_pos dim with rfl | hpos
    · omega
    · exact hpos
  refine ⟨⟨i % dim, Nat.mod_lt _ hpos⟩, ⟨i / dim / dim, ?_⟩, ⟨i / dim % dim, Nat.mod_lt _ hpos⟩, ?_⟩
  · rw [Nat.div_div_eq_div_mul]
    exact Nat.div_lt_of_lt_mul h
  · unfold index
    dsimp only
    rw [Nat.mul_comm (i / dim / dim), Nat.div_add_mod, Nat.mul_comm, Nat.div_add_mod]

@[simp]
theorem cells_length (cube : Cube V dim) : cube.cells.length = volume dim := Vector.length_toList

theorem cells_index (cube : Cube V dim) (x y z : Fin dim) : cube.cells[index x y z]? = some (cube.get x y z) := by
  have hlt : index x y z < dim * dim * dim := index_lt x y z
  unfold cells
  rw [Vector.getElem?_toList, Vector.getElem?_eq_getElem hlt, Vector.getElem_flatten, Vector.getElem_flatten]
  simp only [index_div, index_mid, index_mod]
  rfl

theorem cells_ext {l : List V} {cube : Cube V dim} (hlength : l.length = volume dim)
    (h : ∀ x y z, l[index x y z]? = some (cube.get x y z)) : l = cube.cells := by
  refine List.ext_getElem? fun i => ?_
  by_cases hi : i < volume dim
  · obtain ⟨x, y, z, rfl⟩ := exists_index hi
    rw [h, cells_index]
  · rw [List.getElem?_eq_none (by omega), List.getElem?_eq_none (by rw [cells_length]; omega)]

theorem get_set (cube : Cube V dim) (x y z x' y' z' : Fin dim) (value : V) :
    (cube.set x y z value).get x' y' z' = if x' = x ∧ y' = y ∧ z' = z then value else cube.get x' y' z' := by
  unfold get set
  simp only [Fin.getElem_fin, Vector.getElem_set]
  by_cases hy : y = y'
  · subst hy
    by_cases hz : z = z'
    · subst hz
      by_cases hx : x = x'
      · subst hx
        simp
      · have hx' : ¬ x' = x := fun h => hx h.symm
        simp [hx', Fin.val_inj, hx]
    · have hz' : ¬ z' = z := fun h => hz h.symm
      simp [hz', Fin.val_inj, hz]
  · have hy' : ¬ y' = y := fun h => hy h.symm
    simp [hy', Fin.val_inj, hy]

@[simp]
theorem get_filled (value : V) (x y z : Fin dim) : (filled value : Cube V dim).get x y z = value := by
  simp [get, filled]

@[simp]
theorem get_ofCells (f : Fin dim → Fin dim → Fin dim → V) (x y z : Fin dim) : (ofCells f).get x y z = f x y z := by
  simp [get, ofCells]

theorem cells_filled (value : V) : (filled value : Cube V dim).cells = List.replicate (volume dim) value := by
  symm
  refine cells_ext List.length_replicate fun x y z => ?_
  rw [List.getElem?_replicate_of_lt (index_lt x y z), get_filled]

theorem cells_set (cube : Cube V dim) (x y z : Fin dim) (value : V) :
    (cube.set x y z value).cells = cube.cells.set (index x y z) value := by
  symm
  refine cells_ext (by rw [List.length_set, cells_length]) fun x' y' z' => ?_
  rw [get_set]
  by_cases h : x' = x ∧ y' = y ∧ z' = z
  · obtain ⟨rfl, rfl, rfl⟩ := h
    rw [if_pos ⟨rfl, rfl, rfl⟩, List.getElem?_set_self (by rw [cells_length]; exact index_lt _ _ _)]
  · rw [if_neg h, List.getElem?_set_ne, cells_index]
    intro heq
    obtain ⟨rfl, rfl, rfl⟩ := index_inj heq
    exact h ⟨rfl, rfl, rfl⟩

end Cube

end Foton

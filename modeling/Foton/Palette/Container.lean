import Foton.Lib.Tally
import Foton.Palette.Cube
import Mathlib.Data.List.Dedup
import Mathlib.Data.List.TakeWhile

/-!
# Paletted containers

A container is homogeneous, or a cube with a palette that counts each value, or,
while worldgen writes to it, a raw cube. The counts are `u16`; an operation that
would overflow or underflow one gives `none`.
-/

namespace Foton

/-- The counts of a palette are below this. -/
def countLimit : Nat := 2 ^ 16

structure HeterogeneousPalette (V : Type) (dim : Nat) where
  cube : Cube V dim
  palette : List (V × Nat)

inductive PalettedContainer (V : Type) (dim : Nat) where
  | homogeneous (value : V)
  | heterogeneous (data : HeterogeneousPalette V dim)
  | building (cube : Cube V dim)

variable {V : Type} {dim : Nat}

namespace PalettedContainer

def get (c : PalettedContainer V dim) (x y z : Fin dim) : V :=
  match c with
  | homogeneous value => value
  | heterogeneous data => data.cube.get x y z
  | building cube => cube.get x y z

def enterBuildingMode : PalettedContainer V dim → PalettedContainer V dim
  | homogeneous value => building (.filled value)
  | heterogeneous data => building data.cube
  | building cube => building cube

/-- A write through `as_building_slice_mut`; `none` when the container is not in building mode. -/
def writeBuilding (c : PalettedContainer V dim) (x y z : Fin dim) (value : V) : Option (PalettedContainer V dim) :=
  match c with
  | building cube => some (building (cube.set x y z value))
  | _ => none

def IsBuilding : PalettedContainer V dim → Prop
  | building _ => True
  | _ => False

/-- The cells of the container, in memory order. -/
def cells : PalettedContainer V dim → List V
  | homogeneous value => (Cube.filled value : Cube V dim).cells
  | heterogeneous data => data.cube.cells
  | building cube => cube.cells

variable {c c' : PalettedContainer V dim}

theorem cells_get (c : PalettedContainer V dim) (x y z : Fin dim) : c.cells[Cube.index x y z]? = some (c.get x y z) := by
  cases c with
  | homogeneous value => exact (Cube.cells_index _ x y z).trans (congrArg some (Cube.get_filled value x y z))
  | heterogeneous data => exact Cube.cells_index data.cube x y z
  | building cube => exact Cube.cells_index cube x y z

theorem cells_length (c : PalettedContainer V dim) : c.cells.length = Cube.volume dim := by
  cases c <;> exact Cube.cells_length _

theorem exists_mem_cells (hvolume : 0 < Cube.volume dim) (c : PalettedContainer V dim) : ∃ v, v ∈ c.cells :=
  List.exists_mem_of_length_pos (by rw [c.cells_length]; exact hvolume)

theorem mem_cells {v : V} (h : v ∈ c.cells) : ∃ x y z, c.get x y z = v := by
  obtain ⟨i, hi, rfl⟩ := List.mem_iff_getElem.mp h
  obtain ⟨x, y, z, rfl⟩ := Cube.exists_index (hi.trans_eq c.cells_length)
  have hcell := c.cells_get x y z
  rw [List.getElem?_eq_getElem hi] at hcell
  exact ⟨x, y, z, (Option.some.inj hcell).symm⟩

@[simp]
theorem cells_enterBuildingMode (c : PalettedContainer V dim) : c.enterBuildingMode.cells = c.cells := by
  cases c <;> rfl

theorem get_of_cells {x y z : Fin dim} (h : c'.cells = c.cells) : c'.get x y z = c.get x y z := by
  have hc := c.cells_get x y z
  rw [← h, c'.cells_get] at hc
  exact Option.some.inj hc

end PalettedContainer

variable [DecidableEq V]

/-- The loop of `from_cube`: each run of equal cells is counted at once. -/
def countRuns : List V → List (V × Nat) → Option (List (V × Nat))
  | [], palette => some palette
  | v :: rest, palette =>
    match addCount countLimit v (((rest.takeWhile (· = v)).length + 1) % countLimit) palette with
    | none => none
    | some palette => countRuns (rest.dropWhile (· = v)) palette
termination_by cells => cells.length
decreasing_by
  simp only [List.length_cons]
  exact Nat.lt_succ_of_le (List.dropWhile_sublist _).length_le

def HeterogeneousPalette.set (data : HeterogeneousPalette V dim) (x y z : Fin dim) (value : V) :
    Option (V × HeterogeneousPalette V dim) := do
  let oldValue := data.cube.get x y z
  let palette ← addCount countLimit value 1 data.palette
  let palette ← removeCount oldValue palette
  some (oldValue, ⟨data.cube.set x y z value, palette⟩)

namespace PalettedContainer

def fromCube (cube : Cube V dim) : Option (PalettedContainer V dim) :=
  match countRuns cube.cells [] with
  | none => none
  | some [(value, _)] => some (homogeneous value)
  | some palette => some (heterogeneous ⟨cube, palette⟩)

def finalizeBuilding : PalettedContainer V dim → Option (PalettedContainer V dim)
  | building cube => fromCube cube
  | c => some c

def set (c : PalettedContainer V dim) (x y z : Fin dim) (value : V) : Option (V × PalettedContainer V dim) :=
  match c with
  | homogeneous original =>
    if value = original then some (original, homogeneous original)
    else (fromCube ((Cube.filled original).set x y z value)).map fun c => (original, c)
  | heterogeneous data =>
    match data.set x y z value with
    | none => none
    | some (original, data) =>
      match data.palette with
      | [(value, _)] => some (original, homogeneous value)
      | _ => some (original, heterogeneous data)
  | building cube => some (cube.get x y z, building (cube.set x y z value))

end PalettedContainer

/-! ## The palette is exact -/

/-- The palette lists the values of the cube with their counts, and there are at least two. -/
structure HeterogeneousPalette.Exact (data : HeterogeneousPalette V dim) : Prop where
  tallies : Tallies data.palette fun v => data.cube.cells.count v
  two : 2 ≤ data.palette.length

theorem count_run (v a : V) (rest : List V) : (v :: rest).count a =
    (if a = v then (rest.takeWhile (· = v)).length + 1 else 0) + (rest.dropWhile (· = v)).count a := by
  have hrun : rest.takeWhile (· = v) = List.replicate (rest.takeWhile (· = v)).length v :=
    List.eq_replicate_of_mem fun b hb => by simpa using List.mem_takeWhile_imp hb
  conv_lhs => rw [← List.takeWhile_append_dropWhile (p := fun b => decide (b = v)) (l := rest)]
  rw [List.count_cons, List.count_append, hrun, List.count_replicate]
  by_cases ha : a = v
  · subst ha
    simp
    omega
  · have ha' : ¬ v = a := fun h => ha h.symm
    simp [ha, ha']

theorem countRuns_ok {cells : List V} {palette : List (V × Nat)} {count : V → Nat} (h : Tallies palette count)
    (hlength : cells.length < countLimit) (hlimit : ∀ v, count v + cells.count v < countLimit) :
    ∃ palette', countRuns cells palette = some palette' ∧ Tallies palette' fun v => count v + cells.count v := by
  induction hn : cells.length using Nat.strong_induction_on generalizing cells palette count with
  | _ n ih =>
    subst hn
    cases cells with
    | nil =>
      unfold countRuns
      exact ⟨palette, rfl, by simpa using h⟩
    | cons v rest =>
      have hrest : (rest.dropWhile (· = v)).length < (v :: rest).length := by
        rw [List.length_cons]
        exact Nat.lt_succ_of_le (List.dropWhile_sublist _).length_le
      have hrun : (rest.takeWhile (· = v)).length + 1 < countLimit := by
        refine lt_of_le_of_lt ?_ hlength
        rw [List.length_cons]
        exact Nat.succ_le_succ (List.takeWhile_sublist _).length_le
      have hv := count_run v v rest
      rw [if_pos rfl] at hv
      obtain ⟨palette', hpalette', htallies⟩ := h.addCount_ok (n := (rest.takeWhile (· = v)).length + 1)
        countLimit v (Nat.succ_pos _) (by have := hlimit v; omega)
      unfold countRuns
      rw [Nat.mod_eq_of_lt hrun, hpalette']
      dsimp only
      have hcount : (fun a => Function.update count v (count v + ((rest.takeWhile (· = v)).length + 1)) a +
          (rest.dropWhile (· = v)).count a) = fun a => count a + (v :: rest).count a := by
        funext a
        rw [count_run v a rest]
        by_cases ha : a = v
        · rw [ha, Function.update_self, if_pos rfl]
          omega
        · rw [Function.update_of_ne ha, if_neg ha, Nat.zero_add]
      rw [← hcount]
      refine ih _ hrest htallies (lt_trans hrest hlength) (fun a => ?_) rfl
      rw [congrFun hcount a]
      exact hlimit a

namespace PalettedContainer

/-- What a container says about itself is true. -/
def Exact : PalettedContainer V dim → Prop
  | heterogeneous data => data.Exact
  | _ => True

theorem fromCube_ok (hvolume : 0 < Cube.volume dim) (hlimit : Cube.volume dim < countLimit) (cube : Cube V dim) :
    ∃ c, fromCube cube = some c ∧ c.Exact ∧ ¬ c.IsBuilding ∧ c.cells = cube.cells := by
  have hcount : ∀ v, 0 + cube.cells.count v < countLimit := fun v => by
    rw [Nat.zero_add]
    exact lt_of_le_of_lt (List.count_le_length.trans_eq cube.cells_length) hlimit
  obtain ⟨palette, hpalette, htallies⟩ : ∃ palette, countRuns cube.cells [] = some palette ∧
      Tallies palette fun v => 0 + cube.cells.count v :=
    countRuns_ok (Tallies.nil_iff.mpr fun _ => rfl) (by rw [Cube.cells_length]; exact hlimit) hcount
  simp only [Nat.zero_add] at htallies
  unfold fromCube
  rw [hpalette]
  match palette with
  | [] =>
    have hzero := Tallies.nil_iff.mp htallies
    cases hcells : cube.cells with
    | nil =>
      have hlength := cube.cells_length
      rw [hcells, List.length_nil] at hlength
      omega
    | cons v rest =>
      have hv := hzero v
      rw [hcells, List.count_cons_self] at hv
      omega
  | [(value, n)] =>
    refine ⟨_, rfl, trivial, not_false, ?_⟩
    have hall : ∀ v ∈ cube.cells, v = value := fun v hv => by
      have hmem := htallies.mem_keys.mpr (List.count_pos_iff.mpr hv)
      simpa using hmem
    show (Cube.filled value : Cube V dim).cells = _
    rw [Cube.cells_filled, List.eq_replicate_of_mem hall, Cube.cells_length]
  | e :: e' :: rest => exact ⟨_, rfl, ⟨htallies, by simp⟩, not_false, rfl⟩

end PalettedContainer

theorem HeterogeneousPalette.set_ok {data : HeterogeneousPalette V dim}
    (h : Tallies data.palette fun v => data.cube.cells.count v) (hlimit : Cube.volume dim + 1 < countLimit)
    (x y z : Fin dim) (value : V) : ∃ palette, data.set x y z value =
        some (data.cube.get x y z, ⟨data.cube.set x y z value, palette⟩) ∧
      Tallies palette fun v => (data.cube.set x y z value).cells.count v := by
  let old := data.cube.get x y z
  have hlt : Cube.index x y z < data.cube.cells.length := by
    rw [Cube.cells_length]
    exact Cube.index_lt x y z
  have hold : data.cube.cells[Cube.index x y z] = old := by
    have hcell := data.cube.cells_index x y z
    rw [List.getElem?_eq_getElem hlt] at hcell
    exact Option.some.inj hcell
  have hpos : 0 < data.cube.cells.count old := List.count_pos_iff.mpr (hold ▸ List.getElem_mem hlt)
  have hle : data.cube.cells.count value ≤ Cube.volume dim := List.count_le_length.trans_eq data.cube.cells_length
  obtain ⟨added, hadd, hadded⟩ := h.addCount_ok countLimit value Nat.one_pos (by omega)
  obtain ⟨palette, hremove, hremoved⟩ := hadded.removeCount_ok (a := old) (by
    by_cases heq : old = value
    · rw [heq, Function.update_self]
      exact Nat.succ_pos _
    · rw [Function.update_of_ne heq]
      exact hpos)
  refine ⟨palette, ?_, ?_⟩
  · unfold HeterogeneousPalette.set
    rw [hadd, Option.bind_eq_bind, Option.bind_some, hremove]
    rfl
  · convert hremoved using 1
    funext v
    rw [Cube.cells_set, List.count_set hlt, hold]
    by_cases hv : v = old
    · subst hv
      rw [Function.update_self]
      by_cases heq : old = value
      · rw [heq] at hpos
        rw [heq, Function.update_self, beq_self_eq_true, if_pos rfl]
        omega
      · have heq' : ¬ value = old := fun h => heq h.symm
        rw [Function.update_of_ne heq]
        simp [heq']
    · have hv' : ¬ old = v := fun h => hv h.symm
      rw [Function.update_of_ne hv]
      by_cases heq : v = value
      · subst heq
        simp [hv']
      · have heq' : ¬ value = v := fun h => heq h.symm
        rw [Function.update_of_ne heq]
        simp [hv', heq']

namespace PalettedContainer

theorem palette_length {data : HeterogeneousPalette V dim} (h : data.Exact) :
    data.palette.length = data.cube.cells.dedup.length := by
  have hperm : (data.palette.map Prod.fst).Perm data.cube.cells.dedup := by
    refine (List.perm_ext_iff_of_nodup h.tallies.1 (List.nodup_dedup _)).mpr fun v => ?_
    rw [h.tallies.mem_keys, List.mem_dedup, List.count_pos_iff]
  rw [← hperm.length_eq, List.length_map]

theorem set_ok {c : PalettedContainer V dim} (h : c.Exact) (hlimit : Cube.volume dim + 1 < countLimit) (x y z : Fin dim)
    (value : V) : ∃ c', c.set x y z value = some (c.get x y z, c') ∧ c'.Exact ∧ (c'.IsBuilding ↔ c.IsBuilding) ∧
      c'.cells = c.cells.set (Cube.index x y z) value := by
  have hvolume : 0 < Cube.volume dim := lt_of_le_of_lt (Nat.zero_le _) (Cube.index_lt x y z)
  cases c with
  | homogeneous original =>
    unfold PalettedContainer.set
    dsimp only
    by_cases hsame : value = original
    · rw [if_pos hsame]
      refine ⟨_, rfl, trivial, Iff.rfl, ?_⟩
      subst hsame
      show (Cube.filled value : Cube V dim).cells = (Cube.filled value : Cube V dim).cells.set _ _
      rw [Cube.cells_filled, List.set_replicate_self]
    · rw [if_neg hsame]
      obtain ⟨c', hc', hexact, hbuilding, hcells⟩ := fromCube_ok hvolume (by omega) ((Cube.filled original).set x y z value)
      rw [hc']
      exact ⟨c', rfl, hexact, iff_of_false hbuilding not_false, hcells.trans (Cube.cells_set _ x y z value)⟩
  | heterogeneous data =>
    obtain ⟨palette, hset, htallies⟩ := HeterogeneousPalette.set_ok h.tallies hlimit x y z value
    unfold PalettedContainer.set
    dsimp only
    rw [hset]
    dsimp only
    match palette with
    | [] =>
      obtain ⟨v, hv⟩ := exists_mem_cells hvolume (building (data.cube.set x y z value))
      exact absurd (Tallies.nil_iff.mp htallies v) (Nat.pos_iff_ne_zero.mp (List.count_pos_iff.mpr hv))
    | [(v, n)] =>
      refine ⟨_, rfl, trivial, Iff.rfl, ?_⟩
      have hall : ∀ v' ∈ (data.cube.set x y z value).cells, v' = v := fun v' hv => by
        have hmem := htallies.mem_keys.mpr (List.count_pos_iff.mpr hv)
        simpa using hmem
      show (Cube.filled v : Cube V dim).cells = _
      rw [Cube.cells_filled, ← (data.cube.set x y z value).cells_length, ← List.eq_replicate_of_mem hall]
      exact Cube.cells_set _ x y z value
    | e :: e' :: rest =>
      exact ⟨_, rfl, ⟨htallies, by simp⟩, Iff.rfl, Cube.cells_set _ x y z value⟩
  | building cube => exact ⟨_, rfl, trivial, Iff.rfl, Cube.cells_set _ x y z value⟩

theorem finalizeBuilding_ok {c : PalettedContainer V dim} (h : c.Exact) (hvolume : 0 < Cube.volume dim)
    (hlimit : Cube.volume dim < countLimit) :
    ∃ c', c.finalizeBuilding = some c' ∧ c'.Exact ∧ ¬ c'.IsBuilding ∧ c'.cells = c.cells := by
  cases c with
  | homogeneous value => exact ⟨_, rfl, trivial, not_false, rfl⟩
  | heterogeneous data => exact ⟨_, rfl, h, not_false, rfl⟩
  | building cube => exact fromCube_ok hvolume hlimit cube

/-- The containers that the operations make. -/
inductive Reachable : PalettedContainer V dim → Prop
  | homogeneous (value : V) : Reachable (homogeneous value)
  | fromCube {cube : Cube V dim} {c : PalettedContainer V dim} (hc : fromCube cube = some c) : Reachable c
  | set {c c' : PalettedContainer V dim} {x y z : Fin dim} {value old : V} (h : Reachable c)
      (hc : c.set x y z value = some (old, c')) : Reachable c'
  | enterBuildingMode {c : PalettedContainer V dim} (h : Reachable c) : Reachable c.enterBuildingMode
  | writeBuilding {c c' : PalettedContainer V dim} {x y z : Fin dim} {value : V} (h : Reachable c)
      (hc : c.writeBuilding x y z value = some c') : Reachable c'
  | finalizeBuilding {c c' : PalettedContainer V dim} (h : Reachable c) (hc : c.finalizeBuilding = some c') :
      Reachable c'

omit [DecidableEq V] in
theorem writeBuilding_ok {c c' : PalettedContainer V dim} {x y z : Fin dim} {value : V}
    (h : c.writeBuilding x y z value = some c') :
    c'.IsBuilding ∧ c'.cells = c.cells.set (Cube.index x y z) value := by
  cases c <;> cases h
  exact ⟨trivial, Cube.cells_set _ x y z value⟩

theorem exact_of_building {c : PalettedContainer V dim} (h : c.IsBuilding) : c.Exact := by
  cases c <;> trivial

theorem Reachable.exact {c : PalettedContainer V dim} (h : c.Reachable) (hvolume : 0 < Cube.volume dim)
    (hlimit : Cube.volume dim + 1 < countLimit) : c.Exact := by
  induction h with
  | homogeneous value => trivial
  | @fromCube cube c hc =>
    obtain ⟨c', hc', hexact, -⟩ := fromCube_ok hvolume (by omega) cube
    rw [hc] at hc'
    cases hc'
    exact hexact
  | @set c c' x y z value old h hc ih =>
    obtain ⟨c'', hc'', hexact, -⟩ := set_ok ih hlimit x y z value
    rw [hc] at hc''
    cases hc''
    exact hexact
  | @enterBuildingMode c h ih => cases c <;> exact trivial
  | writeBuilding h hc ih => exact exact_of_building (writeBuilding_ok hc).1
  | @finalizeBuilding c c' h hc ih =>
    obtain ⟨c'', hc'', hexact, -⟩ := finalizeBuilding_ok ih hvolume (by omega)
    rw [hc] at hc''
    cases hc''
    exact hexact

end PalettedContainer

end Foton

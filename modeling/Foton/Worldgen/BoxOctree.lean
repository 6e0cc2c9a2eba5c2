import Foton.Worldgen.BoundingBox
import Mathlib.Data.List.Induction
import Mathlib.Data.Int.Order.Basic

/-!
# The octree of placed boxes

A node keeps its boxes in a list until the list grows long, and then splits
into eight children whose boundaries share their middle planes. A box goes to
every child it touches. Children below the greatest depth are not split again.
-/

namespace Foton
namespace Worldgen

def subdivideThreshold : Nat := 10

def maximumDepth : Nat := 3

structure StoredBox where
  bbox : BoundingBox
  deflated : DeflatedQuarters
  deflated_eq : deflated = DeflatedQuarters.fromPiece bbox

def StoredBox.new (bbox : BoundingBox) : StoredBox where
  bbox
  deflated := DeflatedQuarters.fromPiece bbox
  deflated_eq := rfl

structure BoxOctree where
  boundary : BoundingBox
  boundaryQuarters : DeflatedQuarters
  size : IVec3
  depth : Nat
  innerBoxes : List StoredBox
  children : List BoxOctree

def roundAwayFromZero (value : Int) : Int := if value ≥ 0 then value else -value

def sizeOfBoundary (boundary : BoundingBox) : IVec3 :=
  ⟨roundAwayFromZero boundary.width, roundAwayFromZero boundary.height, roundAwayFromZero boundary.depth⟩

/-- The eight halves of a boundary; `tdiv` is the division of the machine. -/
def childBounds (boundary : BoundingBox) (size : IVec3) : List BoundingBox :=
  let min := boundary.min
  let max := boundary.max
  let halfX := size.x.tdiv 2
  let halfY := size.y.tdiv 2
  let halfZ := size.z.tdiv 2
  [ .new ⟨min.x, min.y, min.z⟩ ⟨min.x + halfX, min.y + halfY, min.z + halfZ⟩,
    .new ⟨min.x, min.y, min.z + halfZ⟩ ⟨min.x + halfX, min.y + halfY, max.z⟩,
    .new ⟨min.x + halfX, min.y, min.z⟩ ⟨max.x, min.y + halfY, min.z + halfZ⟩,
    .new ⟨min.x + halfX, min.y, min.z + halfZ⟩ ⟨max.x, min.y + halfY, max.z⟩,
    .new ⟨min.x, min.y + halfY, min.z⟩ ⟨min.x + halfX, max.y, min.z + halfZ⟩,
    .new ⟨min.x, min.y + halfY, min.z + halfZ⟩ ⟨min.x + halfX, max.y, max.z⟩,
    .new ⟨min.x + halfX, min.y + halfY, min.z⟩ ⟨max.x, max.y, min.z + halfZ⟩,
    .new ⟨min.x + halfX, min.y + halfY, min.z + halfZ⟩ ⟨max.x, max.y, max.z⟩ ]

namespace BoxOctree

def withDepth (boundary : BoundingBox) (boundaryQuarters : DeflatedQuarters) (parentDepth : Nat) : BoxOctree where
  boundary
  boundaryQuarters
  size := sizeOfBoundary boundary
  depth := parentDepth + 1
  innerBoxes := []
  children := []

def new (boundary : BoundingBox) : BoxOctree :=
  withDepth boundary (DeflatedQuarters.boundaryFrom boundary) 0

def boundaryIntersects (t : BoxOctree) (candidate : BoundingBox) : Bool :=
  t.boundary.intersects candidate

/-- The loop over the children: `add` is `add_box` on a child. -/
def handOut (add : BoxOctree → BoundingBox → BoxOctree) (children : List BoxOctree) (bbox : BoundingBox) :
    List BoxOctree :=
  children.map fun child => if child.boundaryIntersects bbox then add child bbox else child

def newChildren (t : BoxOctree) : List BoxOctree :=
  (childBounds t.boundary t.size).map fun boundary =>
    withDepth boundary (DeflatedQuarters.boundaryFrom boundary) t.depth

def subdivide (add : BoxOctree → BoundingBox → BoxOctree) (t : BoxOctree) : BoxOctree :=
  { t with
    innerBoxes := []
    children := t.innerBoxes.foldl (fun children stored => handOut add children stored.bbox) t.newChildren }

/-- What is left of `add_box` once the node has been split or not. -/
def place (add : BoxOctree → BoundingBox → BoxOctree) (t : BoxOctree) (bbox : BoundingBox) : BoxOctree :=
  if t.children ≠ [] then
    { t with children := handOut add t.children bbox }
  else if t.innerBoxes.any fun stored => stored.bbox = bbox then
    t
  else
    { t with innerBoxes := t.innerBoxes ++ [.new bbox] }

/-- `add_box` on a node that has at most `levels` levels of nodes, itself included. -/
def addBoxIn : (levels : Nat) → BoxOctree → BoundingBox → BoxOctree
  | 0, t, _ => t
  | levels + 1, t, bbox =>
    if t.depth < maximumDepth ∧ t.innerBoxes.length > subdivideThreshold then
      place (addBoxIn levels) (subdivide (addBoxIn levels) t) bbox
    else
      place (addBoxIn levels) t bbox

def addBox (t : BoxOctree) (bbox : BoundingBox) : BoxOctree :=
  addBoxIn maximumDepth t bbox

mutual

def intersectsDeflated (deflated : DeflatedQuarters) (candidate : BoundingBox) : BoxOctree → Bool
  | ⟨_, _, _, _, innerBoxes, []⟩ =>
    innerBoxes.any fun stored => candidate.intersects stored.bbox && deflated.intersects stored.deflated
  | ⟨_, _, _, _, _, child :: children⟩ => anyIntersects deflated candidate (child :: children)

def anyIntersects (deflated : DeflatedQuarters) (candidate : BoundingBox) : List BoxOctree → Bool
  | [] => false
  | child :: children =>
    (child.boundaryQuarters.intersects deflated && intersectsDeflated deflated candidate child) ||
      anyIntersects deflated candidate children

end

def withinBoundsButNotIntersectingChildren (t : BoxOctree) (candidate : BoundingBox) : Bool :=
  let deflated := DeflatedQuarters.fromPiece candidate
  if deflated.isEmpty then false
  else t.boundaryQuarters.contains deflated && !intersectsDeflated deflated candidate t

/-! ## The children cover their parent -/

theorem newChildren_boundary (t : BoxOctree) : t.newChildren.map (·.boundary) = childBounds t.boundary t.size := by
  simp [newChildren, withDepth, Function.comp_def]

theorem childBounds_cover {boundary : BoundingBox} {p : IVec3} (hp : p ∈ boundary.points) :
    ∃ b ∈ childBounds boundary (sizeOfBoundary boundary), p ∈ b.points := by
  rw [BoundingBox.mem_points] at hp
  obtain ⟨hx, hy, hz⟩ := hp
  simp only [childBounds, sizeOfBoundary, List.mem_cons, List.not_mem_nil, or_false, or_and_right, exists_or, exists_eq_left]
  rcases le_total p.x (boundary.min.x + (roundAwayFromZero boundary.width).tdiv 2) with hx' | hx' <;>
    rcases le_total p.y (boundary.min.y + (roundAwayFromZero boundary.height).tdiv 2) with hy' | hy' <;>
    rcases le_total p.z (boundary.min.z + (roundAwayFromZero boundary.depth).tdiv 2) with hz' | hz'
  · exact Or.inl (BoundingBox.mem_points_new ⟨hx.1, hx'⟩ ⟨hy.1, hy'⟩ ⟨hz.1, hz'⟩)
  · exact Or.inr (Or.inl (BoundingBox.mem_points_new ⟨hx.1, hx'⟩ ⟨hy.1, hy'⟩ ⟨hz', hz.2⟩))
  · exact Or.inr (Or.inr (Or.inr (Or.inr (Or.inl (BoundingBox.mem_points_new ⟨hx.1, hx'⟩ ⟨hy', hy.2⟩ ⟨hz.1, hz'⟩)))))
  · exact Or.inr (Or.inr (Or.inr (Or.inr (Or.inr (Or.inl
      (BoundingBox.mem_points_new ⟨hx.1, hx'⟩ ⟨hy', hy.2⟩ ⟨hz', hz.2⟩))))))
  · exact Or.inr (Or.inr (Or.inl (BoundingBox.mem_points_new ⟨hx', hx.2⟩ ⟨hy.1, hy'⟩ ⟨hz.1, hz'⟩)))
  · exact Or.inr (Or.inr (Or.inr (Or.inl (BoundingBox.mem_points_new ⟨hx', hx.2⟩ ⟨hy.1, hy'⟩ ⟨hz', hz.2⟩))))
  · exact Or.inr (Or.inr (Or.inr (Or.inr (Or.inr (Or.inr (Or.inl
      (BoundingBox.mem_points_new ⟨hx', hx.2⟩ ⟨hy', hy.2⟩ ⟨hz.1, hz'⟩)))))))
  · exact Or.inr (Or.inr (Or.inr (Or.inr (Or.inr (Or.inr (Or.inr
      (BoundingBox.mem_points_new ⟨hx', hx.2⟩ ⟨hy', hy.2⟩ ⟨hz', hz.2⟩)))))))

/-! ## What a node holds -/

/-- The node and the levels below it hold the given boxes: a leaf all of them,
a child those that touch its boundary. -/
def Holds : (levels : Nat) → BoxOctree → List BoundingBox → Prop
  | 0, _, _ => False
  | levels + 1, t, items =>
    (t.depth + levels = maximumDepth ∧ t.size = sizeOfBoundary t.boundary ∧
      t.boundaryQuarters = DeflatedQuarters.boundaryFrom t.boundary) ∧
    ((t.children = [] ∧ ∀ b, b ∈ t.innerBoxes.map (·.bbox) ↔ b ∈ items) ∨
      (t.innerBoxes = [] ∧ t.children.map (·.boundary) = childBounds t.boundary t.size ∧
        ∀ child ∈ t.children, Holds levels child (items.filter fun b => child.boundaryIntersects b)))

theorem Holds.congr {levels : Nat} {t : BoxOctree} {items items' : List BoundingBox} (h : Holds levels t items)
    (heq : ∀ b, b ∈ items ↔ b ∈ items') : Holds levels t items' := by
  induction levels generalizing t items items' with
  | zero => exact h
  | succ levels ih =>
    obtain ⟨hnode, ⟨hleaf, hboxes⟩ | ⟨hinner, hbounds, hchildren⟩⟩ := h
    · exact ⟨hnode, Or.inl ⟨hleaf, fun b => (hboxes b).trans (heq b)⟩⟩
    · refine ⟨hnode, Or.inr ⟨hinner, hbounds, ?_⟩⟩
      intro child hchild
      apply ih (hchildren child hchild)
      intro b
      simp [heq]

theorem holds_withDepth (boundary : BoundingBox) {levels parentDepth : Nat}
    (h : parentDepth + 1 + levels = maximumDepth) :
    Holds (levels + 1) (withDepth boundary (DeflatedQuarters.boundaryFrom boundary) parentDepth) [] :=
  ⟨⟨h, rfl, rfl⟩, Or.inl ⟨rfl, by simp [withDepth]⟩⟩

theorem boundary_place (add : BoxOctree → BoundingBox → BoxOctree) (t : BoxOctree) (bbox : BoundingBox) :
    (place add t bbox).boundary = t.boundary := by
  unfold place
  split
  · rfl
  · split <;> rfl

theorem boundary_addBoxIn (levels : Nat) (t : BoxOctree) (bbox : BoundingBox) :
    (addBoxIn levels t bbox).boundary = t.boundary := by
  cases levels with
  | zero => rfl
  | succ levels =>
    unfold addBoxIn
    split
    · rw [boundary_place]
      rfl
    · rw [boundary_place]

section
variable {levels : Nat} (hadd : ∀ {t : BoxOctree} {items : List BoundingBox} (bbox : BoundingBox),
  Holds levels t items → Holds levels (addBoxIn levels t bbox) (bbox :: items))

theorem handOut_boundary (children : List BoxOctree) (bbox : BoundingBox) :
    (handOut (addBoxIn levels) children bbox).map (·.boundary) = children.map (·.boundary) := by
  simp only [handOut, List.map_map, List.map_inj_left, Function.comp_apply]
  intro child _
  split
  · exact boundary_addBoxIn levels child bbox
  · rfl

include hadd in
theorem handOut_holds {children : List BoxOctree} {items : List BoundingBox} (bbox : BoundingBox)
    (h : ∀ child ∈ children, Holds levels child (items.filter fun b => child.boundaryIntersects b)) :
    ∀ child ∈ handOut (addBoxIn levels) children bbox,
      Holds levels child ((bbox :: items).filter fun b => child.boundaryIntersects b) := by
  intro child' hchild'
  obtain ⟨child, hchild, rfl⟩ := List.mem_map.mp hchild'
  have hholds := h child hchild
  cases hmeets : child.boundaryIntersects bbox with
  | true =>
    have hsame : ∀ b, (addBoxIn levels child bbox).boundaryIntersects b = child.boundaryIntersects b := by
      intro b
      rw [boundaryIntersects, boundary_addBoxIn]
      rfl
    simp only [if_true, hsame, List.filter_cons, hmeets]
    exact hadd bbox hholds
  | false =>
    simp only [Bool.false_eq_true, if_false, List.filter_cons, hmeets]
    exact hholds

theorem foldl_handOut_boundary (stored : List StoredBox) (children : List BoxOctree) :
    (stored.foldl (fun children s => handOut (addBoxIn levels) children s.bbox) children).map (·.boundary) =
      children.map (·.boundary) := by
  induction stored generalizing children with
  | nil => rfl
  | cons s stored ih => rw [List.foldl_cons, ih, handOut_boundary]

include hadd in
theorem foldl_handOut_holds (stored : List StoredBox) {children : List BoxOctree} {items : List BoundingBox}
    (h : ∀ child ∈ children, Holds levels child (items.filter fun b => child.boundaryIntersects b)) :
    ∀ child ∈ stored.foldl (fun children s => handOut (addBoxIn levels) children s.bbox) children,
      Holds levels child (((stored.map (·.bbox)).reverse ++ items).filter fun b => child.boundaryIntersects b) := by
  induction stored generalizing children items with
  | nil => exact h
  | cons s stored ih =>
    rw [List.foldl_cons]
    have hnext := ih (handOut_holds hadd s.bbox h)
    simpa using hnext

omit hadd in
theorem newChildren_holds {t : BoxOctree} (hlevels : t.depth + levels = maximumDepth) (hdepth : t.depth < maximumDepth) :
    ∀ child ∈ t.newChildren, Holds levels child (([] : List BoundingBox).filter fun b => child.boundaryIntersects b) := by
  obtain ⟨levels, rfl⟩ : ∃ n, levels = n + 1 := ⟨levels - 1, by omega⟩
  intro child hchild
  obtain ⟨boundary, _, rfl⟩ := List.mem_map.mp hchild
  exact holds_withDepth boundary (by omega)

include hadd in
theorem subdivide_holds {t : BoxOctree} {items : List BoundingBox} (h : Holds (levels + 1) t items)
    (hdepth : t.depth < maximumDepth) (hfull : t.innerBoxes ≠ []) :
    Holds (levels + 1) (subdivide (addBoxIn levels) t) items := by
  obtain ⟨⟨hlevels, hsize, hquarters⟩, ⟨hleaf, hboxes⟩ | ⟨hinner, _⟩⟩ := h
  · refine ⟨⟨hlevels, hsize, hquarters⟩, Or.inr ⟨rfl, ?_, ?_⟩⟩
    · simp only [subdivide]
      rw [foldl_handOut_boundary, newChildren_boundary]
    · intro child hchild
      apply (foldl_handOut_holds hadd t.innerBoxes (newChildren_holds hlevels hdepth) child hchild).congr
      intro b
      have hb := hboxes b
      simp at hb ⊢
      simp [hb]
  · exact absurd hinner hfull

include hadd in
theorem place_holds {t : BoxOctree} {items : List BoundingBox} (bbox : BoundingBox) (h : Holds (levels + 1) t items) :
    Holds (levels + 1) (place (addBoxIn levels) t bbox) (bbox :: items) := by
  obtain ⟨hnode, ⟨hleaf, hboxes⟩ | ⟨hinner, hbounds, hchildren⟩⟩ := h
  · unfold place
    simp only [hleaf, ne_eq, not_true_eq_false, if_false]
    by_cases hin : t.innerBoxes.any (fun stored => stored.bbox = bbox) = true
    · rw [if_pos hin]
      have hmem : bbox ∈ items := by
        rw [← hboxes]
        simpa using hin
      refine ⟨hnode, Or.inl ⟨hleaf, ?_⟩⟩
      intro b
      rw [hboxes, List.mem_cons]
      constructor
      · exact Or.inr
      · rintro (rfl | hb)
        · exact hmem
        · exact hb
    · rw [if_neg hin]
      refine ⟨hnode, Or.inl ⟨rfl, ?_⟩⟩
      intro b
      rw [List.map_append, List.mem_append, hboxes, List.mem_cons]
      simp [StoredBox.new, or_comm]
  · have hne : t.children ≠ [] := by
      intro hnil
      rw [hnil] at hbounds
      cases hbounds
    unfold place
    rw [if_pos hne]
    refine ⟨hnode, Or.inr ⟨hinner, ?_, ?_⟩⟩
    · rw [handOut_boundary, hbounds]
    · exact handOut_holds hadd bbox hchildren

end

theorem addBoxIn_holds (levels : Nat) : ∀ {t : BoxOctree} {items : List BoundingBox} (bbox : BoundingBox),
    Holds levels t items → Holds levels (addBoxIn levels t bbox) (bbox :: items) := by
  induction levels with
  | zero =>
    intro t items bbox h
    exact h
  | succ levels ih =>
    intro t items bbox h
    unfold addBoxIn
    by_cases hsplit : t.depth < maximumDepth ∧ t.innerBoxes.length > subdivideThreshold
    · rw [if_pos hsplit]
      have hfull : t.innerBoxes ≠ [] := by
        intro hnil
        simp [hnil] at hsplit
      exact place_holds ih bbox (subdivide_holds ih h hsplit.1 hfull)
    · rw [if_neg hsplit]
      exact place_holds ih bbox h

section
variable {levels fuel : Nat}
  (hsame : ∀ {t : BoxOctree} {items : List BoundingBox}, Holds levels t items → ∀ bbox,
    addBoxIn fuel t bbox = addBoxIn levels t bbox)

include hsame in
theorem handOut_of_le {children : List BoxOctree} {items : List BoundingBox} (bbox : BoundingBox)
    (h : ∀ child ∈ children, Holds levels child (items.filter fun b => child.boundaryIntersects b)) :
    handOut (addBoxIn fuel) children bbox = handOut (addBoxIn levels) children bbox := by
  apply List.map_congr_left
  intro child hchild
  rw [hsame (h child hchild)]

include hsame in
theorem foldl_handOut_of_le (stored : List StoredBox) {children : List BoxOctree} {items : List BoundingBox}
    (h : ∀ child ∈ children, Holds levels child (items.filter fun b => child.boundaryIntersects b)) :
    stored.foldl (fun children s => handOut (addBoxIn fuel) children s.bbox) children =
      stored.foldl (fun children s => handOut (addBoxIn levels) children s.bbox) children := by
  induction stored generalizing children items with
  | nil => rfl
  | cons s stored ih =>
    rw [List.foldl_cons, List.foldl_cons, handOut_of_le hsame s.bbox h]
    exact ih (handOut_holds (addBoxIn_holds levels) s.bbox h)

include hsame in
theorem place_of_le {t : BoxOctree} {items : List BoundingBox} (bbox : BoundingBox) (h : Holds (levels + 1) t items) :
    place (addBoxIn fuel) t bbox = place (addBoxIn levels) t bbox := by
  unfold place
  obtain ⟨_, ⟨hleaf, _⟩ | ⟨_, _, hchildren⟩⟩ := h
  · simp [hleaf]
  · rw [handOut_of_le hsame bbox hchildren]

include hsame in
theorem subdivide_of_le {t : BoxOctree} (hlevels : t.depth + levels = maximumDepth) (hdepth : t.depth < maximumDepth) :
    subdivide (addBoxIn fuel) t = subdivide (addBoxIn levels) t := by
  unfold subdivide
  rw [foldl_handOut_of_le hsame t.innerBoxes (newChildren_holds hlevels hdepth)]

end

theorem addBoxIn_of_le {levels fuel : Nat} (hle : levels ≤ fuel) {t : BoxOctree} {items : List BoundingBox}
    (h : Holds levels t items) (bbox : BoundingBox) : addBoxIn fuel t bbox = addBoxIn levels t bbox := by
  induction levels generalizing fuel t items bbox with
  | zero => exact absurd h id
  | succ levels ih =>
    obtain ⟨fuel, rfl⟩ : ∃ n, fuel = n + 1 := ⟨fuel - 1, by omega⟩
    have hsame : ∀ {t : BoxOctree} {items : List BoundingBox}, Holds levels t items → ∀ bbox,
        addBoxIn fuel t bbox = addBoxIn levels t bbox := fun h bbox => ih (by omega) h bbox
    unfold addBoxIn
    by_cases hsplit : t.depth < maximumDepth ∧ t.innerBoxes.length > subdivideThreshold
    · have hfull : t.innerBoxes ≠ [] := by
        intro hnil
        simp [hnil] at hsplit
      have hholds := subdivide_holds (addBoxIn_holds levels) h hsplit.1 hfull
      rw [if_pos hsplit, if_pos hsplit, subdivide_of_le hsame h.1.1 hsplit.1, place_of_le hsame bbox hholds]
    · rw [if_neg hsplit, if_neg hsplit, place_of_le hsame bbox h]

/-! ## The search -/

theorem anyIntersects_iff (deflated : DeflatedQuarters) (candidate : BoundingBox) (children : List BoxOctree) :
    anyIntersects deflated candidate children = true ↔ ∃ child ∈ children,
      child.boundaryQuarters.intersects deflated = true ∧ intersectsDeflated deflated candidate child = true := by
  induction children with
  | nil => simp [anyIntersects]
  | cons child children ih => simp [anyIntersects, ih]

def Touches (t : BoxOctree) (candidate : BoundingBox) : Prop :=
  intersectsDeflated (DeflatedQuarters.fromPiece candidate) candidate t = true

theorem touches_leaf {t : BoxOctree} (hleaf : t.children = []) (candidate : BoundingBox) :
    t.Touches candidate ↔ ∃ b ∈ t.innerBoxes.map (·.bbox), Meets BoundingBox.points b candidate := by
  obtain ⟨_, _, _, _, innerBoxes, children⟩ := t
  dsimp only at hleaf
  subst hleaf
  simp only [Touches, intersectsDeflated, List.any_eq_true, Bool.and_eq_true, List.mem_map]
  constructor
  · intro ⟨stored, hstored, hmeets, _⟩
    rw [BoundingBox.intersects_iff] at hmeets
    exact ⟨stored.bbox, ⟨stored, hstored, rfl⟩, hmeets.symm⟩
  · intro ⟨b, ⟨stored, hstored, hb⟩, hmeets⟩
    subst hb
    refine ⟨stored, hstored, ?_, ?_⟩
    · rw [BoundingBox.intersects_iff]
      exact hmeets.symm
    · rw [stored.deflated_eq, DeflatedQuarters.fromPiece_intersects]
      exact hmeets.symm

theorem touches_children {t : BoxOctree} (hne : t.children ≠ []) (candidate : BoundingBox) :
    t.Touches candidate ↔ ∃ child ∈ t.children,
      child.boundaryQuarters.intersects (DeflatedQuarters.fromPiece candidate) = true ∧ child.Touches candidate := by
  obtain ⟨_, _, _, _, innerBoxes, children⟩ := t
  cases children with
  | nil => exact absurd rfl hne
  | cons child children =>
    simp only [Touches, intersectsDeflated]
    rw [anyIntersects_iff]

theorem Holds.boundaryQuarters {levels : Nat} {t : BoxOctree} {items : List BoundingBox} (h : Holds levels t items) :
    t.boundaryQuarters = DeflatedQuarters.boundaryFrom t.boundary := by
  cases levels with
  | zero => exact absurd h id
  | succ levels => exact h.1.2.2

theorem Holds.finds {levels : Nat} {t : BoxOctree} {items : List BoundingBox} (h : Holds levels t items) :
    Finds BoundingBox.points t.boundary items t.Touches := by
  induction levels generalizing t items with
  | zero => exact absurd h id
  | succ levels ih =>
    obtain ⟨⟨_, hsize, _⟩, ⟨hleaf, hboxes⟩ | ⟨hinner, hbounds, hchildren⟩⟩ := h
    · apply Finds.of_scan
      intro q
      simp only [touches_leaf hleaf, hboxes]
    · have hne : t.children ≠ [] := by
        intro hnil
        rw [hnil] at hbounds
        cases hbounds
      apply Finds.split t.children BoxOctree.boundary (fun child => items.filter fun b => child.boundaryIntersects b) Touches
      · intro p hp
        obtain ⟨b, hb, hpb⟩ := childBounds_cover hp
        rw [← hsize, ← hbounds] at hb
        obtain ⟨child, hchild, rfl⟩ := List.mem_map.mp hb
        exact ⟨child, hchild, hpb⟩
      · intro child _ item
        simp only [List.mem_filter, boundaryIntersects, BoundingBox.intersects_iff]
      · intro child hchild
        exact ih (hchildren child hchild)
      · intro q
        rw [touches_children hne]
        apply exists_congr
        intro child
        apply and_congr_right
        intro hchild
        rw [(hchildren child hchild).boundaryQuarters, DeflatedQuarters.boundaryFrom_intersects]

/-- All boxes added to a new octree, in order. -/
def addBoxes (boundary : BoundingBox) (boxes : List BoundingBox) : BoxOctree :=
  boxes.foldl addBox (new boundary)

theorem addBoxes_holds (boundary : BoundingBox) (boxes : List BoundingBox) :
    Holds maximumDepth (addBoxes boundary boxes) boxes.reverse := by
  induction boxes using List.reverseRecOn with
  | nil => exact holds_withDepth boundary rfl
  | append_singleton boxes bbox ih =>
    rw [addBoxes, List.foldl_append, List.reverse_append]
    exact addBoxIn_holds maximumDepth bbox ih

theorem addBoxes_boundary (boundary : BoundingBox) (boxes : List BoundingBox) :
    (addBoxes boundary boxes).boundary = boundary := by
  induction boxes using List.reverseRecOn with
  | nil => rfl
  | append_singleton boxes bbox ih =>
    rw [addBoxes, List.foldl_append]
    exact (boundary_addBoxIn maximumDepth _ bbox).trans ih

/-- The octree answers like a scan of all boxes that were added. -/
theorem within_bounds_iff_scan (boundary : BoundingBox) (boxes : List BoundingBox) (candidate : BoundingBox) :
    (addBoxes boundary boxes).withinBoundsButNotIntersectingChildren candidate = true ↔
      (DeflatedQuarters.boundaryFrom boundary).contains (.fromPiece candidate) = true ∧
        ∀ bbox ∈ boxes, (DeflatedQuarters.fromPiece candidate).intersects (.fromPiece bbox) = false := by
  have hholds := addBoxes_holds boundary boxes
  have hquarters := hholds.boundaryQuarters
  have hfinds := hholds.finds
  rw [addBoxes_boundary] at hquarters hfinds
  simp only [withinBoundsButNotIntersectingChildren, DeflatedQuarters.fromPiece_not_isEmpty, Bool.false_eq_true, if_false,
    hquarters, Bool.and_eq_true, Bool.not_eq_true']
  apply and_congr_right
  intro hinside
  have hscan := hfinds.iff_scan (DeflatedQuarters.points_subset_of_contains hinside)
  rw [Touches] at hscan
  rw [← Bool.not_eq_true, hscan]
  simp only [List.mem_reverse, not_exists, not_and, ← Bool.not_eq_true, DeflatedQuarters.fromPiece_intersects]
  exact forall_congr' fun bbox => imp_congr_right fun _ => not_congr ⟨Meets.symm, Meets.symm⟩

end BoxOctree
end Worldgen
end Foton

import Foton.Climate.Flatten

/-!
# Nearest entries

No entry is closer to a target than a box that contains it, so what a search
passes over is not closer than what it has.
-/

namespace Foton.Climate

open Candidate

/-! ## Distances -/

def boxGap (p : Parameter) (t : Int) : Int := Max.max (Max.max (t - p.max) (p.min - t)) 0

def boxDistance (ps : ParameterSpace) (target : Coordinates) : Int :=
  (dimensions.map fun d => boxGap (ps d) (target d) * boxGap (ps d) (target d)).sum

theorem boxDistance_le_of_within {inner outer : ParameterSpace} (h : Within inner outer) (target : Coordinates) :
    boxDistance outer target ≤ boxDistance inner target := by
  apply sum_dimensions_le
  intro d
  have hd := h d
  have hnonneg : 0 ≤ boxGap (outer d) (target d) := le_max_right _ _
  have hle : boxGap (outer d) (target d) ≤ boxGap (inner d) (target d) := by
    unfold boxGap
    omega
  exact Int.mul_le_mul hle hle hnonneg (hnonneg.trans hle)

/-- The intervals of the point are intervals. -/
def ParameterPoint.Valid (point : ParameterPoint) : Prop := ∀ d, (point.parameterSpace d).min ≤ (point.parameterSpace d).max

theorem distance_eq_boxGap {p : Parameter} (h : p.min ≤ p.max) (t : Int) : p.distance t = boxGap p t := by
  unfold Parameter.distance boxGap
  dsimp only
  split
  · omega
  · split <;> omega

theorem cachedDistance_eq {point : ParameterPoint} (h : point.Valid) (target : Coordinates) :
    ParameterList.cachedDistance point.parameterSpace target = boxDistance point.parameterSpace target := by
  unfold ParameterList.cachedDistance boxDistance
  simp only [fun d => distance_eq_boxGap (h d) (target d)]

theorem fitness_eq {point : ParameterPoint} (h : point.Valid) (target : TargetPoint) :
    point.fitness target = boxDistance point.parameterSpace target.toParameterArray := by
  have hoffset : Parameter.distance { min := point.offset, max := point.offset } 0 = point.offset ∨
      Parameter.distance { min := point.offset, max := point.offset } 0 = -point.offset := by
    unfold Parameter.distance
    dsimp only
    split
    · omega
    · split <;> omega
  have hsquare : Parameter.distance { min := point.offset, max := point.offset } 0 *
      Parameter.distance { min := point.offset, max := point.offset } 0 = point.offset * point.offset := by
    rcases hoffset with heq | heq
    · rw [heq]
    · rw [heq, Int.neg_mul_neg]
  rw [← cachedDistance_eq h]
  unfold ParameterList.cachedDistance ParameterPoint.fitness
  rw [sum_dimensions]
  dsimp only [ParameterPoint.parameterSpace, TargetPoint.toParameterArray]
  rw [hsquare]
  omega

def TargetPoint.InRange (bound : Int) (target : TargetPoint) : Prop :=
  ∀ d, -bound ≤ target.toParameterArray d ∧ target.toParameterArray d ≤ bound

theorem boxDistance_lt {bound : Int} (hbound : 28 * bound * bound < 2 ^ 63) {ps : ParameterSpace} (hps : InRange bound ps)
    {target : TargetPoint} (htarget : target.InRange bound) : boxDistance ps target.toParameterArray < i64Max := by
  have hsquare : ∀ d, boxGap (ps d) (target.toParameterArray d) * boxGap (ps d) (target.toParameterArray d) ≤
      2 * bound * (2 * bound) := by
    intro d
    have hd := hps d
    have ht := htarget d
    have hnonneg : 0 ≤ boxGap (ps d) (target.toParameterArray d) := le_max_right _ _
    have hle : boxGap (ps d) (target.toParameterArray d) ≤ 2 * bound := by
      unfold boxGap
      omega
    exact Int.mul_le_mul hle hle hnonneg (by omega)
  have hsum := sum_dimensions_le hsquare
  rw [sum_dimensions (fun _ => 2 * bound * (2 * bound))] at hsum
  have hfour : 2 * bound * (2 * bound) = 2 * (2 * (bound * bound)) := by
    rw [Int.mul_assoc, Int.mul_left_comm bound 2 bound]
  rw [Int.mul_assoc] at hbound
  unfold boxDistance i64Max
  omega

/-! ## The search -/

section
variable (target : Coordinates)

/-- The distances of the leaves, with the indices that their flat nodes hold. -/
def leafItems (leaves : List (ParameterSpace × Nat)) : List (Int × Nat) :=
  leaves.map fun leaf => (boxDistance leaf.1 target, asU32 leaf.2)

variable {target}

theorem leafItems_append (leaves leaves' : List (ParameterSpace × Nat)) :
    leafItems target (leaves ++ leaves') = leafItems target leaves ++ leafItems target leaves' := by
  simp [leafItems]

mutual

theorem within_of_mem_leaves : ∀ {root : RTreeNode}, Boxed root → ∀ leaf ∈ root.leaves, Within leaf.1 root.parameterSpace
  | .leaf ps _, _, leaf, hleaf => by
    rw [RTreeNode.leaves, List.mem_singleton] at hleaf
    rw [hleaf]
    exact Within.refl ps
  | .subTree ps children, .subTree _ _ hwithin hchildren, leaf, hleaf => by
    rw [RTreeNode.leaves] at hleaf
    obtain ⟨child, hchild, hin⟩ := within_of_mem_leavesOf hchildren leaf hleaf
    exact hin.trans (hwithin child hchild)

theorem within_of_mem_leavesOf : ∀ {children : List RTreeNode}, (∀ child ∈ children, Boxed child) →
    ∀ leaf ∈ leavesOf children, ∃ child ∈ children, Within leaf.1 child.parameterSpace
  | [], _, leaf, hleaf => by
    rw [leavesOf] at hleaf
    cases hleaf
  | child :: rest, h, leaf, hleaf => by
    rw [leavesOf] at hleaf
    rcases List.mem_append.mp hleaf with hleaf | hleaf
    · exact ⟨child, List.mem_cons_self, within_of_mem_leaves (h child List.mem_cons_self) leaf hleaf⟩
    · obtain ⟨found, hfound, hin⟩ := within_of_mem_leavesOf (fun c hc => h c (List.mem_cons_of_mem _ hc)) leaf hleaf
      exact ⟨found, List.mem_cons_of_mem _ hfound, hin⟩

end

theorem boxDistance_le_leafItems {root : RTreeNode} (h : Boxed root) :
    ∀ x ∈ leafItems target root.leaves, boxDistance root.parameterSpace target ≤ x.1 := by
  intro x hx
  obtain ⟨leaf, hleaf, rfl⟩ := List.mem_map.mp hx
  exact boxDistance_le_of_within (within_of_mem_leaves h leaf hleaf) target

/-- A flat node of the tree, wherever its children stand. -/
def IsFlat (nodes : List FlatNode) (root : RTreeNode) (node : FlatNode) : Prop :=
  ∃ idx start, nodes[idx]? = some node ∧ Laid nodes idx root ∧ node = setChildrenStart start (flatNode root)

theorem IsFlat.distance_eq {nodes : List FlatNode} {root : RTreeNode} {node : FlatNode} (h : IsFlat nodes root node) :
    node.distance target = boxDistance root.parameterSpace target := by
  obtain ⟨_, start, _, _, rfl⟩ := h
  cases root <;> rfl

theorem Laid.isFlat {nodes : List FlatNode} {idx : Nat} {root : RTreeNode} (h : Laid nodes idx root) :
    ∃ node, nodes[idx]? = some node ∧ IsFlat nodes root node := by
  have hlaid := h
  cases root with
  | leaf ps valueIndex =>
    rw [Laid] at h
    exact ⟨_, h, idx, 0, h, hlaid, rfl⟩
  | subTree ps children =>
    rw [Laid] at h
    obtain ⟨start, hnode, _⟩ := h
    exact ⟨_, hnode, idx, start, hnode, hlaid, rfl⟩

theorem LaidAll.slice {nodes : List FlatNode} {children : List RTreeNode} : ∀ {start : Nat}, LaidAll nodes start children →
    (children ≠ [] → start + children.length ≤ nodes.length) ∧
      List.Forall₂ (IsFlat nodes) children ((nodes.drop start).take children.length) := by
  induction children with
  | nil =>
    intro start _
    exact ⟨fun h => absurd rfl h, by simp⟩
  | cons child rest ih =>
    intro start h
    rw [LaidAll] at h
    obtain ⟨node, hnode, hflat⟩ := h.1.isFlat
    obtain ⟨hle, hall⟩ := ih h.2
    have hlt : start < nodes.length := (List.getElem?_eq_some_iff.mp hnode).1
    constructor
    · intro _
      rw [List.length_cons]
      by_cases hrest : rest = []
      · subst hrest
        exact hlt
      · have hfit := hle hrest
        omega
    · rw [List.drop_eq_getElem_cons hlt, List.length_cons, List.take_succ_cons]
      have hget : nodes[start] = node := (List.getElem?_eq_some_iff.mp hnode).2
      rw [hget]
      exact List.Forall₂.cons hflat hall

theorem childrenOf_spec {nodes : List FlatNode} {ps : ParameterSpace} {children : List RTreeNode} {node : FlatNode}
    (hboxed : Boxed (.subTree ps children)) (h : IsFlat nodes (.subTree ps children) node) :
    ∃ slice, childrenOf nodes node = some slice ∧ List.Forall₂ (IsFlat nodes) children slice := by
  obtain ⟨idx, start, hnode, hlaid, heq⟩ := h
  cases hboxed with
  | subTree htwo hfew _ _ =>
    rw [Laid] at hlaid
    obtain ⟨start', hnode', hall⟩ := hlaid
    have hsame : node = setChildrenStart start' (flatNode (.subTree ps children)) := by
      rw [hnode] at hnode'
      exact Option.some.inj hnode'
    have hcount : asU8 children.length = children.length := Nat.mod_eq_of_lt (by omega)
    obtain ⟨hle, hslice⟩ := hall.slice
    have hne : children ≠ [] := by
      intro hnil
      simp [hnil] at htwo
    refine ⟨_, ?_, hslice⟩
    subst hsame
    unfold childrenOf
    simp only [setChildrenStart, flatNode, hcount]
    rw [if_pos (hle hne)]

theorem size_le_sizes {children : List RTreeNode} {child : RTreeNode} (h : child ∈ children) : child.size ≤ sizes children := by
  induction children with
  | nil => cases h
  | cons first rest ih =>
    rw [sizes]
    rcases List.mem_cons.mp h with rfl | h
    · omega
    · have hle := ih h
      omega

theorem searchChildren_spec {nodes : List FlatNode} {fuel : Nat} {children : List RTreeNode} {slice : List FlatNode}
    (hall : List.Forall₂ (IsFlat nodes) children slice) (hboxed : ∀ child ∈ children, Boxed child)
    (hsearch : ∀ child ∈ children, ∀ ps grandchildren, child = .subTree ps grandchildren → ∀ node, IsFlat nodes child node →
      ∀ best, ∃ best', searchNearest nodes target fuel node best = some best' ∧
        Improves (leafItems target child.leaves) best best') :
    ∀ best, ∃ best', slice.foldlM (fun (best : BestLeaf) child =>
        if best.cost > child.distance target then
          if child.isLeaf then some ⟨child.distance target, some child.valueIndex⟩
          else searchNearest nodes target fuel child best
        else some best) best = some best' ∧ Improves (leafItems target (leavesOf children)) best best' := by
  induction hall with
  | nil => exact fun best => ⟨best, rfl, improves_nil best⟩
  | @cons child node children slice hflat _ ih =>
    intro best
    rw [List.forall_mem_cons] at hboxed hsearch
    have hstep : ∃ between, (if best.cost > node.distance target then
          if node.isLeaf then some ⟨node.distance target, some node.valueIndex⟩
          else searchNearest nodes target fuel node best
        else some best) = some between ∧ Improves (leafItems target child.leaves) best between := by
      rw [hflat.distance_eq]
      by_cases hcloser : best.cost > boxDistance child.parameterSpace target
      · rw [if_pos hcloser]
        cases child with
        | leaf ps valueIndex =>
          obtain ⟨_, start, _, _, rfl⟩ := hflat
          exact ⟨_, rfl, improves_taken hcloser⟩
        | subTree ps grandchildren =>
          have hleaf : node.isLeaf = false := by
            obtain ⟨_, start, _, _, rfl⟩ := hflat
            exact isLeaf_flatNode_subTree hboxed.1
          rw [hleaf, if_neg (by simp)]
          exact hsearch.1 ps grandchildren rfl node hflat best
      · rw [if_neg hcloser]
        refine ⟨best, rfl, improves_pruned ?_⟩
        intro x hx
        exact (not_lt.mp hcloser).trans (boxDistance_le_leafItems hboxed.1 x hx)
    obtain ⟨between, hbetween, himproves⟩ := hstep
    obtain ⟨best', hbest', hrest⟩ := ih hboxed.2 hsearch.2 between
    refine ⟨best', ?_, ?_⟩
    · rw [List.foldlM_cons, hbetween]
      exact hbest'
    · rw [leavesOf, leafItems_append]
      exact himproves.append hrest

/-- The search goes over all leaves below a node, and ends within as many levels as there are nodes. -/
theorem searchNearest_spec {nodes : List FlatNode} : ∀ {fuel : Nat} {ps : ParameterSpace} {children : List RTreeNode}
    {node : FlatNode}, Boxed (.subTree ps children) → IsFlat nodes (.subTree ps children) node → sizes children < fuel →
      ∀ best, ∃ best', searchNearest nodes target fuel node best = some best' ∧
        Improves (leafItems target (leavesOf children)) best best' := by
  intro fuel
  induction fuel with
  | zero => exact fun _ _ hfuel => absurd hfuel (Nat.not_lt_zero _)
  | succ fuel ih =>
    intro ps children node hboxed hflat hfuel best
    obtain ⟨slice, hslice, hall⟩ := childrenOf_spec hboxed hflat
    simp only [searchNearest, hslice, Option.bind_eq_bind, Option.bind_some]
    apply searchChildren_spec hall hboxed.of_children
    intro child hchild ps' grandchildren heq node' hflat' best'
    subst heq
    have hle := size_le_sizes hchild
    rw [RTreeNode.size] at hle
    rw [RTreeNode.leaves]
    exact ih (hboxed.of_children _ hchild) hflat' (by omega) best'

end

end Foton.Climate

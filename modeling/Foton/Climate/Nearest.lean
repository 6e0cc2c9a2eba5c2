import Foton.Climate.Search

/-!
# Lookups agree with a linear search in distance

Every lookup, with any valid cache, gives an entry at the least distance, and
the cached one where it is at that distance.
-/

namespace Foton.Climate

open Candidate

variable {T : Type}

/-- The entry at the index is as near to the target as any entry. -/
def Nearest (values : List (ParameterPoint × T)) (target : TargetPoint) (idx : Nat) (value : T) : Prop :=
  ∃ point, values[idx]? = some (point, value) ∧ ∀ x ∈ values, point.fitness target ≤ x.1.fitness target

/-- The list is an index of the values by a tree. -/
structure Indexes (values : List (ParameterPoint × T)) (root : RTreeNode) (list : ParameterList T) : Prop where
  values_eq : list.values = values
  spaces_eq : list.paramSpaces = values.map fun x => x.1.parameterSpace
  boxed : Boxed root
  leaves : root.leaves.Perm ((buildEntries values).map BuildEntry.leaf)
  laid : Laid list.nodes 0 root
  length_eq : list.nodes.length = root.size
  leafNodes : (leafNodes list.nodes).Perm (values.zipIdx.map fun x => (x.1.1.parameterSpace, x.2))

/-- What the claims about a list of values rest on: valid intervals within a bound. -/
structure Bounded (bound : Int) (values : List (ParameterPoint × T)) : Prop where
  squares : 28 * bound * bound < 2 ^ 63
  valid : ∀ x ∈ values, x.1.Valid
  inRange : ∀ x ∈ values, InRange bound x.1.parameterSpace

theorem buildEntries_leaf (values : List (ParameterPoint × T)) :
    (buildEntries values).map BuildEntry.leaf = values.zipIdx.map fun x => (x.1.1.parameterSpace, x.2) := by
  simp [buildEntries, BuildEntry.leaf, Function.comp_def]

theorem flatLeaf_zipIdx {values : List (ParameterPoint × T)} (hlength : values.length ≤ 2 ^ 32) :
    (values.zipIdx.map fun x => (x.1.1.parameterSpace, x.2)).map flatLeaf =
      values.zipIdx.map fun x => (x.1.1.parameterSpace, x.2) := by
  rw [List.map_map]
  apply List.map_congr_left
  intro x hx
  have hlt := List.snd_lt_of_mem_zipIdx hx
  rw [Function.comp_apply, flatLeaf, asU32_of_lt (by omega)]

/-- The tree has no more nodes than 32-bit indices. -/
def NodesFit (expected : Nat → Nat) (values : List (ParameterPoint × T)) : Prop :=
  ∀ root, buildTree expected (buildEntries values).length (buildEntries values) = some root → root.size ≤ 2 ^ 32

theorem build_spec {expected : Nat → Nat} (hsizes : BucketSizes expected) {bound : Int} {values : List (ParameterPoint × T)}
    (hne : values ≠ []) (h : Bounded bound values) :
    ∃ root, buildTree expected (buildEntries values).length (buildEntries values) = some root ∧
      Built (buildEntries values) root ∧ root.leaves.length = values.length := by
  have hentries : (buildEntries values).length = values.length := by simp [buildEntries]
  have hsome : buildEntries values ≠ [] := by
    rw [← List.length_pos_iff, hentries]
    exact List.length_pos_iff.mpr hne
  have hrange : EntriesInRange bound (buildEntries values) := by
    intro e he
    obtain ⟨x, hx, rfl⟩ := List.mem_map.mp he
    exact h.inRange x.1 (List.fst_mem_of_mem_zipIdx hx)
  obtain ⟨root, hroot, hbuilt⟩ := buildTree_spec hsizes h.squares hsome (le_refl _) hrange
  exact ⟨root, hroot, hbuilt, by rw [hbuilt.leaves.length_eq, List.length_map, hentries]⟩

theorem nodesFit_of_length {expected : Nat → Nat} (hsizes : BucketSizes expected) {bound : Int}
    {values : List (ParameterPoint × T)} (hne : values ≠ []) (h : Bounded bound values) (hlength : values.length ≤ 2 ^ 31) :
    NodesFit expected values := by
  intro root hroot
  obtain ⟨root', hroot', hbuilt, hleaves⟩ := build_spec hsizes hne h
  rw [hroot] at hroot'
  cases hroot'
  have hsize := size_le hbuilt.boxed
  omega

theorem new_spec {expected : Nat → Nat} (hsizes : BucketSizes expected) {bound : Int} {values : List (ParameterPoint × T)}
    (hne : values ≠ []) (hfit : NodesFit expected values) (h : Bounded bound values) :
    ∃ root list, ParameterList.new expected values = some list ∧ Indexes values root list ∧ values.length ≤ 2 ^ 32 := by
  obtain ⟨root, hroot, hbuilt, hleaves⟩ := build_spec hsizes hne h
  have hsize := leaves_length_le root
  have hlength : values.length ≤ 2 ^ 32 := hleaves ▸ hsize.trans (hfit root hroot)
  obtain ⟨hlaid, hcount, hflat⟩ := flattenTree_spec hbuilt.boxed (hfit root hroot)
  let list : ParameterList T :=
    { values, paramSpaces := values.map fun x => x.1.parameterSpace, nodes := flattenTree root }
  refine ⟨root, list, ?_, ⟨rfl, rfl, hbuilt.boxed, hbuilt.leaves, hlaid, hcount, ?_⟩, hlength⟩
  · unfold ParameterList.new
    simp only [hroot, Option.bind_eq_bind, Option.bind_some]
    rfl
  · have hperm := hflat.trans (hbuilt.leaves.map flatLeaf)
    rw [buildEntries_leaf, flatLeaf_zipIdx hlength] at hperm
    exact hperm

section
variable {values : List (ParameterPoint × T)} {root : RTreeNode} {list : ParameterList T} {bound : Int} {target : TargetPoint}

theorem mem_leafItems (hindex : Indexes values root list) (hlength : values.length ≤ 2 ^ 32) (h : Bounded bound values)
    (x : Int × Nat) :
    x ∈ leafItems target.toParameterArray root.leaves ↔
      ∃ point value, values[x.2]? = some (point, value) ∧ x.1 = point.fitness target := by
  have hperm : (leafItems target.toParameterArray root.leaves).Perm
      (values.zipIdx.map fun y => (y.1.1.fitness target, y.2)) := by
    have hmap := hindex.leaves.map fun leaf => (boxDistance leaf.1 target.toParameterArray, asU32 leaf.2)
    rw [buildEntries_leaf, List.map_map] at hmap
    have hsame : ∀ y ∈ values.zipIdx,
        (boxDistance y.1.1.parameterSpace target.toParameterArray, asU32 y.2) = (y.1.1.fitness target, y.2) := by
      intro y hy
      have hlt := List.snd_lt_of_mem_zipIdx hy
      rw [fitness_eq (h.valid y.1 (List.fst_mem_of_mem_zipIdx hy)), asU32_of_lt (by omega)]
    exact hmap.trans (List.Perm.of_eq (List.map_congr_left hsame))
  rw [hperm.mem_iff, List.mem_map]
  constructor
  · intro ⟨y, hy, heq⟩
    have hget := List.mem_zipIdx_iff_getElem?.mp hy
    subst heq
    exact ⟨y.1.1, y.1.2, hget, rfl⟩
  · intro ⟨point, value, hget, hcost⟩
    refine ⟨((point, value), x.2), List.mem_zipIdx_iff_getElem?.mpr hget, ?_⟩
    rw [← hcost]

theorem nearest_of_least (hindex : Indexes values root list) (hlength : values.length ≤ 2 ^ 32) (h : Bounded bound values)
    {x : Int × Nat} (hx : x ∈ leafItems target.toParameterArray root.leaves)
    (hleast : ∀ y ∈ leafItems target.toParameterArray root.leaves, x.1 ≤ y.1) :
    ∃ value, Nearest values target x.2 value := by
  obtain ⟨point, value, hget, hcost⟩ := (mem_leafItems hindex hlength h x).mp hx
  refine ⟨value, point, hget, ?_⟩
  intro y hy
  obtain ⟨i, hi⟩ := List.mem_iff_getElem?.mp hy
  rw [← hcost]
  exact hleast (y.1.fitness target, i) ((mem_leafItems hindex hlength h _).mpr ⟨y.1, y.2, hi, rfl⟩)

/-- The root is a leaf, and then the only one, or the search goes over all leaves. -/
theorem root_cases (hindex : Indexes values root list) (target : Coordinates) :
    ∃ node, list.nodes[0]? = some node ∧
      ((node.isLeaf = true ∧ ∃ cost, leafItems target root.leaves = [(cost, node.valueIndex)]) ∨
        (node.isLeaf = false ∧ ∀ best, ∃ best', searchNearest list.nodes target list.nodes.length node best = some best' ∧
          Improves (leafItems target root.leaves) best best')) := by
  obtain ⟨node, hnode, hflat⟩ := hindex.laid.isFlat
  refine ⟨node, hnode, ?_⟩
  have hboxed := hindex.boxed
  have hlength := hindex.length_eq
  cases root with
  | leaf ps valueIndex =>
    obtain ⟨_, start, _, _, rfl⟩ := hflat
    exact Or.inl ⟨rfl, boxDistance ps target, rfl⟩
  | subTree ps children =>
    refine Or.inr ⟨?_, ?_⟩
    · obtain ⟨_, start, _, _, rfl⟩ := hflat
      exact isLeaf_flatNode_subTree hboxed
    · rw [RTreeNode.leaves]
      rw [RTreeNode.size] at hlength
      exact searchNearest_spec hboxed hflat (by omega)

variable (hindex : Indexes values root list) (hlength : values.length ≤ 2 ^ 32) (h : Bounded bound values)
include hindex hlength h

theorem item_lt (htarget : target.InRange bound) : ∀ x ∈ leafItems target.toParameterArray root.leaves, x.1 < i64Max := by
  intro x hx
  obtain ⟨point, value, hget, hcost⟩ := (mem_leafItems hindex hlength h x).mp hx
  have hmem : (point, value) ∈ values := List.mem_of_getElem? hget
  rw [hcost, fitness_eq (h.valid _ hmem)]
  exact boxDistance_lt h.squares (h.inRange _ hmem) htarget

theorem exists_item (hne : values ≠ []) : ∃ x, x ∈ leafItems target.toParameterArray root.leaves := by
  obtain ⟨x, hx⟩ := List.exists_mem_of_ne_nil values hne
  obtain ⟨i, hi⟩ := List.mem_iff_getElem?.mp hx
  exact ⟨(x.1.fitness target, i), (mem_leafItems hindex hlength h _).mpr ⟨x.1, x.2, hi, rfl⟩⟩

theorem nearest_of_single {cost : Int} {idx : Nat}
    (hitems : leafItems target.toParameterArray root.leaves = [(cost, idx)]) : ∃ value, Nearest values target idx value := by
  apply nearest_of_least hindex hlength h (x := (cost, idx))
  · rw [hitems]
    exact List.mem_singleton_self _
  · intro y hy
    rw [hitems, List.mem_singleton] at hy
    rw [hy]

theorem findValue_spec (hne : values ≠ []) (htarget : target.InRange bound) :
    ∃ idx value, list.findValue target = some value ∧ Nearest values target idx value := by
  obtain ⟨node, hnode, hcases⟩ := root_cases hindex target.toParameterArray
  unfold ParameterList.findValue
  rw [hnode, hindex.values_eq]
  rcases hcases with ⟨hleaf, cost, hitems⟩ | ⟨hleaf, hsearch⟩
  · obtain ⟨value, hnearest⟩ := nearest_of_single hindex hlength h hitems
    obtain ⟨point, hget, hleast⟩ := hnearest
    refine ⟨node.valueIndex, value, ?_, point, hget, hleast⟩
    simp [hleaf, hget]
  · obtain ⟨best, hbest, himproves⟩ := hsearch ⟨i64Max, none⟩
    obtain ⟨x, hx⟩ : ∃ x, x ∈ leafItems target.toParameterArray root.leaves := exists_item hindex hlength h hne
    obtain ⟨y, hy, heq, hleast⟩ := himproves.found hx (item_lt hindex hlength h htarget x hx)
    obtain ⟨value, point, hget, hnear⟩ := nearest_of_least hindex hlength h hy hleast
    refine ⟨y.2, value, ?_, point, hget, hnear⟩
    simp [hleaf, hbest, heq, hget]

theorem findValueCached_spec (hne : values ≠ []) (htarget : target.InRange bound) {cache : Option Nat}
    (hcache : ∀ idx, cache = some idx → idx < values.length) :
    ∃ idx value, list.findValueCached target cache = some (value, some idx) ∧ Nearest values target idx value ∧
      ∀ cached, cache = some cached → (∃ value, Nearest values target cached value) → idx = cached := by
  obtain ⟨node, hnode, hcases⟩ := root_cases hindex target.toParameterArray
  unfold ParameterList.findValueCached
  rw [hnode, hindex.values_eq, hindex.spaces_eq]
  rcases hcases with ⟨hleaf, cost, hitems⟩ | ⟨hleaf, hsearch⟩
  · obtain ⟨value, hnearest⟩ := nearest_of_single hindex hlength h hitems
    obtain ⟨point, hget, hleast⟩ := hnearest
    refine ⟨node.valueIndex, value, ?_, ⟨point, hget, hleast⟩, ?_⟩
    · simp [hleaf, hget]
    · intro cached _ ⟨value', point', hcached, _⟩
      have hmem := (mem_leafItems hindex hlength h (point'.fitness target, cached)).mpr ⟨point', value', hcached, rfl⟩
      rw [hitems, List.mem_singleton] at hmem
      exact (congrArg Prod.snd hmem).symm
  · cases cache with
    | none =>
      obtain ⟨best, hbest, himproves⟩ := hsearch ⟨i64Max, none⟩
      obtain ⟨x, hx⟩ : ∃ x, x ∈ leafItems target.toParameterArray root.leaves := exists_item hindex hlength h hne
      obtain ⟨y, hy, heq, hleast⟩ := himproves.found hx (item_lt hindex hlength h htarget x hx)
      obtain ⟨value, point, hget, hnear⟩ := nearest_of_least hindex hlength h hy hleast
      refine ⟨y.2, value, ?_, ⟨point, hget, hnear⟩, ?_⟩
      · simp [hleaf, hbest, heq, hget]
      · intro cached hnone
        cases hnone
    | some cached =>
      obtain ⟨start, hstart⟩ : ∃ start, values[cached]? = some start :=
        ⟨_, List.getElem?_eq_getElem (hcache cached rfl)⟩
      have hlt := hcache cached rfl
      have hcost : ParameterList.cachedDistance start.1.parameterSpace target.toParameterArray = start.1.fitness target := by
        rw [cachedDistance_eq (h.valid _ (List.mem_of_getElem? hstart)), fitness_eq (h.valid _ (List.mem_of_getElem? hstart))]
      obtain ⟨best, hbest, himproves⟩ := hsearch ⟨start.1.fitness target, some cached⟩
      have hidx : asU32 cached = cached := asU32_of_lt (by omega)
      by_cases hleast : ∀ x ∈ leafItems target.toParameterArray root.leaves, start.1.fitness target ≤ x.1
      · have heq := himproves.eq_of_least hleast
        refine ⟨cached, start.2, ?_, ⟨start.1, hstart, ?_⟩, fun _ hsame _ => Option.some.inj hsame⟩
        · simp [hleaf, hstart, hcost, hidx, hbest, heq]
        · intro x hx
          obtain ⟨i, hi⟩ := List.mem_iff_getElem?.mp hx
          exact hleast (x.1.fitness target, i) ((mem_leafItems hindex hlength h _).mpr ⟨x.1, x.2, hi, rfl⟩)
      · push Not at hleast
        obtain ⟨x, hx, hcloser⟩ := hleast
        obtain ⟨y, hy, heq, hleast⟩ := himproves.found hx hcloser
        obtain ⟨value, point, hget, hnear⟩ := nearest_of_least hindex hlength h hy hleast
        refine ⟨y.2, value, ?_, ⟨point, hget, hnear⟩, ?_⟩
        · simp [hleaf, hstart, hcost, hidx, hbest, heq, hget]
        · intro cached' hsame ⟨value', point', hcached, hnearest⟩
          cases hsame
          rw [hstart] at hcached
          cases hcached
          obtain ⟨point', value'', hget', hcost'⟩ := (mem_leafItems hindex hlength h x).mp hx
          have hle := hnearest _ (List.mem_of_getElem? hget')
          dsimp only at hle hcloser
          omega

/-- A sequence of lookups ends with as many results, each at the least distance to its target. -/
theorem lookups_spec (hne : values ≠ []) : ∀ {targets : List TargetPoint}, (∀ target ∈ targets, target.InRange bound) →
    ∀ {cache : Option Nat}, (∀ idx, cache = some idx → idx < values.length) →
      ∃ results, list.lookups targets cache = some results ∧
        List.Forall₂ (fun target result => ∃ idx, result.2 = some idx ∧ Nearest values target idx result.1) targets results := by
  intro targets
  induction targets with
  | nil => exact fun _ {cache} _ => ⟨[], rfl, List.Forall₂.nil⟩
  | cons target targets ih =>
    intro htargets cache hcache
    rw [List.forall_mem_cons] at htargets
    obtain ⟨idx, value, hfind, hnearest, _⟩ := findValueCached_spec hindex hlength h hne htargets.1 hcache
    have hnext : ∀ idx', some idx = some idx' → idx' < values.length := by
      intro idx' hsame
      cases hsame
      obtain ⟨point, hget, _⟩ := hnearest
      exact (List.getElem?_eq_some_iff.mp hget).1
    obtain ⟨results, hresults, hall⟩ := ih htargets.2 hnext
    refine ⟨(value, some idx) :: results, ?_, List.Forall₂.cons ⟨idx, rfl, hnearest⟩ hall⟩
    rw [ParameterList.lookups, hfind]
    simp only [Option.bind_eq_bind, Option.bind_some, hresults]

end

/-! ## Main result -/

/-- Building ends with a flat tree that has each entry in one leaf, each box around the boxes of its children
and these at the range it records; every lookup finds a nearest entry. -/
theorem parameterList_nearest {expected : Nat → Nat} (hsizes : BucketSizes expected) {values : List (ParameterPoint × T)}
    (hne : values ≠ []) (hfit : NodesFit expected values) {bound : Int} (h : Bounded bound values) :
    ∃ root list, ParameterList.new expected values = some list ∧ Boxed root ∧ Laid list.nodes 0 root ∧
      list.nodes.length = root.size ∧
      (leafNodes list.nodes).Perm (values.zipIdx.map fun x => (x.1.1.parameterSpace, x.2)) ∧
      (∀ target : TargetPoint, target.InRange bound →
        (∃ idx value, list.findValue target = some value ∧ Nearest values target idx value) ∧
        ∀ cache : Option Nat, (∀ idx, cache = some idx → idx < values.length) →
          ∃ idx value, list.findValueCached target cache = some (value, some idx) ∧ Nearest values target idx value ∧
            ∀ cached, cache = some cached → (∃ value, Nearest values target cached value) → idx = cached) ∧
      ∀ targets : List TargetPoint, (∀ target ∈ targets, target.InRange bound) →
        ∀ cache : Option Nat, (∀ idx, cache = some idx → idx < values.length) →
          ∃ results, list.lookups targets cache = some results ∧
            List.Forall₂ (fun target result => ∃ idx, result.2 = some idx ∧ Nearest values target idx result.1)
              targets results := by
  obtain ⟨root, list, hnew, hindex, hlength⟩ := new_spec hsizes hne hfit h
  refine ⟨root, list, hnew, hindex.boxed, hindex.laid, hindex.length_eq, hindex.leafNodes, ?_, ?_⟩
  · intro target htarget
    exact ⟨findValue_spec hindex hlength h hne htarget, fun cache hcache =>
      findValueCached_spec hindex hlength h hne htarget hcache⟩
  · intro targets htargets cache hcache
    exact lookups_spec hindex hlength h hne htargets hcache

theorem bucketSizes_expectedChildrenCount : BucketSizes expectedChildrenCount where
  pos := fun n _ => Nat.pow_pos (by decide)
  lt := by
    intro n hn
    have hle := Nat.pow_log_le_self childrenPerNode (x := n - 1) (by unfold childrenPerNode at hn; omega)
    unfold expectedChildrenCount
    omega
  fit := by
    intro n hn
    have hlt := Nat.lt_pow_succ_log_self (b := childrenPerNode) (by decide) (n - 1)
    rw [Nat.pow_succ] at hlt
    unfold expectedChildrenCount
    unfold childrenPerNode at *
    omega

theorem valueIndex_lt {fuel : Nat} : ∀ {queue : List Batch} {nodes : List FlatNode}, (∀ node ∈ nodes, node.valueIndex < 2 ^ 32) →
    ∀ node ∈ flattenQueue fuel queue nodes, node.valueIndex < 2 ^ 32 := by
  induction fuel with
  | zero => exact fun h => h
  | succ fuel ih =>
    intro queue nodes h
    match queue with
    | [] => exact h
    | (batch, parent) :: queue =>
      rw [flattenQueue_succ]
      apply ih
      intro node hnode
      rcases List.mem_append.mp hnode with hnode | hnode
      · cases parent with
        | none => exact h node hnode
        | some p =>
          obtain ⟨i, hi⟩ := List.mem_iff_getElem?.mp hnode
          rw [patched, List.getElem?_modify] at hi
          obtain ⟨old, hold, heq⟩ := Option.map_eq_some_iff.mp hi
          have hlt := h old (List.mem_of_getElem? hold)
          by_cases hp : p = i
          · simp only [hp, if_true] at heq
            rw [← heq]
            exact hlt
          · simp only [hp, if_false] at heq
            rw [← heq]
            exact hlt
      · obtain ⟨root, _, rfl⟩ := List.mem_map.mp hnode
        cases root with
        | leaf ps valueIndex => exact Nat.mod_lt _ (by decide)
        | subTree ps children => exact (by decide : u32Max < 2 ^ 32)

/-- The point whose temperature is in an interval. -/
def temperaturePoint (min max : Int) : ParameterPoint where
  temperature := ⟨min, max⟩
  humidity := ⟨0, 0⟩
  continentalness := ⟨0, 0⟩
  erosion := ⟨0, 0⟩
  depth := ⟨0, 0⟩
  weirdness := ⟨0, 0⟩
  offset := 0

def temperatureTarget (temperature : Int) : TargetPoint := ⟨temperature, 0, 0, 0, 0, 0⟩

theorem parameterList_nearest_single :
    ∃ root list, ParameterList.new expectedChildrenCount [(temperaturePoint 0 5, true)] = some list ∧ Boxed root ∧
      Laid list.nodes 0 root := by
  have h : Bounded 5 [(temperaturePoint 0 5, true)] := by
    refine ⟨by decide, ?_, ?_⟩
    · simp only [List.forall_mem_singleton]
      unfold ParameterPoint.Valid
      decide
    · simp only [List.forall_mem_singleton]
      unfold InRange
      decide
  have hsizes := bucketSizes_expectedChildrenCount
  have hfit := nodesFit_of_length hsizes (by simp) h (by simp)
  obtain ⟨root, list, hnew, hboxed, hlaid, _⟩ := parameterList_nearest hsizes (by simp) hfit h
  exact ⟨root, list, hnew, hboxed, hlaid⟩

/-- 256 children are counted as none, an index from 2 ^ 32 on stands in no leaf, and a box around an inverted
interval is not as close as the interval. -/
theorem parameterList_narrow :
    ((ParameterList.new (fun _ => 1) (List.replicate 256 (temperaturePoint 0 0, ()))).bind
        fun list => list.findValue (temperatureTarget 0)) = none ∧
      (∀ list, ParameterList.new expectedChildrenCount (List.replicate (2 ^ 32 + 1) (temperaturePoint 0 0, ())) = some list →
        ∀ node ∈ list.nodes, node.valueIndex ≠ 2 ^ 32) ∧
      ((ParameterList.new expectedChildrenCount [(temperaturePoint 10 0, 0), (temperaturePoint 5 5, 1)]).bind
        fun list => list.findValue (temperatureTarget 1)) = some 1 ∧
      (temperaturePoint 10 0).fitness (temperatureTarget 1) < (temperaturePoint 5 5).fitness (temperatureTarget 1) := by
  refine ⟨by decide +kernel, ?_, by decide +kernel, by decide⟩
  intro list hnew node hnode
  unfold ParameterList.new at hnew
  obtain ⟨root, _, heq⟩ := Option.bind_eq_some_iff.mp hnew
  cases heq
  exact (valueIndex_lt (by simp) node hnode).ne

end Foton.Climate

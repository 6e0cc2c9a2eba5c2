import Foton.Entities.Indexes

/-!
# Queries of the entity manager

A query looks at the cells that its box touches, one by one or, where these are
too many, by going through all that are populated. Either way it finds exactly
the accessible entities whose boxes intersect its own, each once and in query
order. Hitboxes of dragons, which no cell has, are left out.
-/

namespace Foton.Entities

variable {F : Type} [Coordinate F]

def maxDirectSpatialCellProbes : Int := 4096

namespace ManagerState

variable (s : ManagerState F) (bounds : EntitySpatialCellBounds) (aabb : WorldAabb F)

/-- The populated cells within bounds. -/
def coveredCells : List (EntitySpatialCell × OrderedIds Int) :=
  if bounds.directProbeCount ≤ maxDirectSpatialCellProbes then
    bounds.cells.filterMap fun cell => (s.bySpatialCell.lookup cell).map fun ids => (cell, ids)
  else s.bySpatialCell.pairs.filter fun p => bounds.contains p.1

def queryOrderLe (a b : EntityEntry F) : Bool := decide (a.queryOrder ≤ b.queryOrder)

/-- The entities of the only cell are in order already. -/
def entityQueryEntries : List (EntityEntry F) :=
  match s.coveredCells (.fromAabb aabb) with
  | [(_, ids)] => ids.ids.filterMap s.liveById.lookup
  | cells => ((cells.flatMap fun p => p.2.ids).dedup.filterMap s.liveById.lookup).mergeSort queryOrderLe

/-- An entity is visited from the first of its cells within the bounds. -/
def visitCell (cell : EntitySpatialCell) (ids : OrderedIds Int) : List (EntityEntry F) :=
  (ids.ids.filterMap s.liveById.lookup).filter fun entry => decide (entry.spatialCells.find? bounds.contains = some cell)

/-- What `for_each_query_entry` visits. -/
def visitedEntries : List (EntityEntry F) :=
  (s.coveredCells (.fromAabb aabb)).flatMap fun p => s.visitCell (.fromAabb aabb) p.1 p.2

def hits (entry : EntityEntry F) : Bool := s.isAccessible entry && entry.boundingBox.intersects aabb

def getEntitiesInAabb : List SharedEntity := ((s.entityQueryEntries aabb).filter (s.hits aabb)).map EntityEntry.entity

def hasEntityInAabbMatching (predicate : SharedEntity → Bool) : Bool :=
  (s.entityQueryEntries aabb).any fun entry => s.hits aabb entry && predicate entry.entity

def getEntityBoundingBoxesInAabbMatching (predicate : SharedEntity → Bool) : List (WorldAabb F) :=
  ((s.visitedEntries aabb).filter fun entry => s.hits aabb entry && predicate entry.entity).map EntityEntry.boundingBox

variable {s} {bounds} {aabb} {entry : EntityEntry F}

/-! ## Covered cells -/

theorem mem_coveredCells {cell : EntitySpatialCell} {ids : OrderedIds Int} :
    (cell, ids) ∈ s.coveredCells bounds ↔ bounds.contains cell = true ∧ s.bySpatialCell.lookup cell = some ids := by
  unfold coveredCells
  split
  · rw [List.mem_filterMap]
    constructor
    · rintro ⟨cell', hcell, hids⟩
      obtain ⟨ids', hlookup, heq⟩ := Option.map_eq_some_iff.mp hids
      cases heq
      exact ⟨EntitySpatialCellBounds.mem_cells.mp hcell, hlookup⟩
    · rintro ⟨hcell, hlookup⟩
      exact ⟨cell, EntitySpatialCellBounds.mem_cells.mpr hcell, by rw [hlookup]; rfl⟩
  · rw [List.mem_filter, AssocList.mem_pairs]
    exact and_comm

theorem nodup_coveredCells (s : ManagerState F) (bounds : EntitySpatialCellBounds) :
    (s.coveredCells bounds).Pairwise fun p q => p.1 ≠ q.1 := by
  unfold coveredCells
  split
  · apply List.pairwise_filterMap.mpr
    apply (EntitySpatialCellBounds.nodup_cells bounds).imp
    intro cell cell' hne p hp q hq
    obtain ⟨ids, -, rfl⟩ := Option.map_eq_some_iff.mp hp
    obtain ⟨ids', -, rfl⟩ := Option.map_eq_some_iff.mp hq
    exact hne
  · apply List.Pairwise.filter
    have hkeys : (s.bySpatialCell.pairs.map Prod.fst).Nodup := by
      unfold AssocList.pairs
      rw [List.map_map]
      exact s.bySpatialCell.nodupKeys
    exact List.pairwise_map.mp hkeys

theorem mem_ids_coveredCells (h : s.Indexed) {id : Int} :
    (∃ p ∈ s.coveredCells bounds, id ∈ p.2.ids) ↔
      ∃ entry, s.liveById.lookup id = some entry ∧ ∃ cell ∈ entry.spatialCells, bounds.contains cell = true := by
  constructor
  · rintro ⟨⟨cell, ids⟩, hcell, hid⟩
    obtain ⟨hcontains, hlookup⟩ := mem_coveredCells.mp hcell
    have hmem : id ∈ s.bySpatialCell.idsAt cell := by
      unfold OrderedIndex.idsAt
      rw [hlookup]
      exact hid
    obtain ⟨entry, hlive, hentry⟩ := (h.cells.mem cell id).mp hmem
    exact ⟨entry, hlive, cell, hentry, hcontains⟩
  · rintro ⟨entry, hlive, cell, hentry, hcontains⟩
    have hmem := (h.cells.mem cell id).mpr ⟨entry, hlive, hentry⟩
    unfold OrderedIndex.idsAt at hmem
    cases hlookup : s.bySpatialCell.lookup cell with
    | none =>
      rw [hlookup] at hmem
      cases hmem
    | some ids =>
      rw [hlookup] at hmem
      exact ⟨(cell, ids), mem_coveredCells.mpr ⟨hcontains, hlookup⟩, hmem⟩

/-! ## Entries of a query -/

/-- A live entity that touches a cell of the query. -/
def Touches (s : ManagerState F) (bounds : EntitySpatialCellBounds) (entry : EntityEntry F) : Prop :=
  s.liveById.lookup entry.entity.id = some entry ∧ ∃ cell ∈ entry.spatialCells, bounds.contains cell = true

theorem mem_filterMap_covered (h : s.Indexed) {ids : List Int}
    (hids : ∀ id, id ∈ ids ↔ ∃ p ∈ s.coveredCells bounds, id ∈ p.2.ids) :
    entry ∈ ids.filterMap s.liveById.lookup ↔ s.Touches bounds entry := by
  rw [List.mem_filterMap]
  constructor
  · rintro ⟨id, hid, hlive⟩
    obtain ⟨entry', hlive', hcell⟩ := (mem_ids_coveredCells h).mp ((hids id).mp hid)
    rw [hlive] at hlive'
    cases hlive'
    obtain rfl := h.ids id entry hlive
    exact ⟨hlive, hcell⟩
  · rintro ⟨hlive, hcell⟩
    exact ⟨entry.entity.id, (hids _).mpr ((mem_ids_coveredCells h).mpr ⟨entry, hlive, hcell⟩), hlive⟩

theorem mem_entityQueryEntries (h : s.Indexed) :
    entry ∈ s.entityQueryEntries aabb ↔ s.Touches (.fromAabb aabb) entry := by
  unfold entityQueryEntries
  split
  · rename_i cell ids hcovered
    apply mem_filterMap_covered h
    intro id
    simp [hcovered]
  · rw [List.mem_mergeSort]
    apply mem_filterMap_covered h
    intro id
    rw [List.mem_dedup, List.mem_flatMap]

/-- Entities of different ids have different orders. -/
theorem Indexed.pairwise_ne (h : s.Indexed) {ids : List Int} (hids : ids.Nodup) :
    (ids.filterMap s.liveById.lookup).Pairwise fun a b => a.queryOrder ≠ b.queryOrder := by
  apply List.pairwise_filterMap.mpr
  apply List.Pairwise.imp _ hids
  intro id id' hne a ha b hb heq
  exact hne (h.distinct id id' a b ha hb (congrArg (fun order => (ofLex order).2) heq))

theorem sorted_mergeSort {l : List (EntityEntry F)} (hne : l.Pairwise fun a b => a.queryOrder ≠ b.queryOrder) :
    (l.mergeSort queryOrderLe).Pairwise fun a b => a.queryOrder < b.queryOrder := by
  have hle : (l.mergeSort queryOrderLe).Pairwise fun a b => queryOrderLe a b = true := by
    apply List.pairwise_mergeSort
    · intro a b c hab hbc
      exact decide_eq_true ((of_decide_eq_true hab).trans (of_decide_eq_true hbc))
    · intro a b
      unfold queryOrderLe
      simpa using le_total a.queryOrder b.queryOrder
  have hne' := (List.mergeSort_perm l queryOrderLe).symm.pairwise hne fun hab => hab.symm
  exact (hle.and hne').imp fun hboth => lt_of_le_of_ne (of_decide_eq_true hboth.1) hboth.2

theorem sorted_entityQueryEntries (h : s.Indexed) (aabb : WorldAabb F) :
    (s.entityQueryEntries aabb).Pairwise fun a b => a.queryOrder < b.queryOrder := by
  unfold entityQueryEntries
  split
  · rename_i cell ids hcovered
    have hlookup := (mem_coveredCells.mp (by rw [hcovered]; exact List.mem_singleton_self (cell, ids))).2
    have hranked := h.ranked cell
    unfold OrderedIndex.idsAt at hranked
    rw [hlookup] at hranked
    apply List.pairwise_filterMap.mpr
    apply List.Pairwise.imp _ hranked
    intro id id' hlt a ha b hb
    rw [rankOf_eq ha, rankOf_eq hb] at hlt
    exact WithBot.coe_lt_coe.mp hlt
  · exact sorted_mergeSort (h.pairwise_ne (List.nodup_dedup _))

theorem nodup_of_sorted {l : List (EntityEntry F)} (h : l.Pairwise fun a b => a.queryOrder < b.queryOrder) : l.Nodup := by
  apply List.Pairwise.imp _ h
  rintro a b hlt rfl
  exact lt_irrefl _ hlt

/-! ## Visited entries -/

theorem mem_visitCell {cell : EntitySpatialCell} {ids : OrderedIds Int} :
    entry ∈ s.visitCell bounds cell ids ↔
      (∃ id ∈ ids.ids, s.liveById.lookup id = some entry) ∧ entry.spatialCells.find? bounds.contains = some cell := by
  unfold visitCell
  rw [List.mem_filter, List.mem_filterMap, decide_eq_true_eq]

theorem mem_visitedEntries (h : s.Indexed) : entry ∈ s.visitedEntries aabb ↔ s.Touches (.fromAabb aabb) entry := by
  unfold visitedEntries
  rw [List.mem_flatMap]
  constructor
  · rintro ⟨⟨cell, ids⟩, hcell, hvisit⟩
    obtain ⟨⟨id, hid, hlive⟩, hfirst⟩ := mem_visitCell.mp hvisit
    obtain rfl := h.ids id entry hlive
    exact ⟨hlive, cell, List.mem_of_find?_eq_some hfirst, List.find?_some hfirst⟩
  · rintro ⟨hlive, hcell⟩
    cases hfirst : entry.spatialCells.find? (EntitySpatialCellBounds.fromAabb aabb).contains with
    | none =>
      obtain ⟨cell, hmem, hcontains⟩ := hcell
      exact absurd hcontains (List.find?_eq_none.mp hfirst cell hmem)
    | some cell =>
      have hmem := (h.cells.mem cell entry.entity.id).mpr ⟨entry, hlive, List.mem_of_find?_eq_some hfirst⟩
      unfold OrderedIndex.idsAt at hmem
      cases hlookup : s.bySpatialCell.lookup cell with
      | none =>
        rw [hlookup] at hmem
        cases hmem
      | some ids =>
        rw [hlookup] at hmem
        exact ⟨(cell, ids), mem_coveredCells.mpr ⟨List.find?_some hfirst, hlookup⟩,
          mem_visitCell.mpr ⟨⟨entry.entity.id, hmem, hlive⟩, hfirst⟩⟩

theorem nodup_visitedEntries (h : s.Indexed) (aabb : WorldAabb F) : (s.visitedEntries aabb).Nodup := by
  unfold visitedEntries
  refine List.pairwise_flatMap.mpr ⟨?_, ?_⟩
  · rintro ⟨cell, ids⟩ -
    apply List.Pairwise.filter
    apply List.Pairwise.imp _ (h.pairwise_ne ids.nodup)
    rintro a b hne rfl
    exact hne rfl
  · apply (nodup_coveredCells s _).imp
    rintro p q hne a ha b hb rfl
    have hp := (mem_visitCell.mp ha).2
    rw [(mem_visitCell.mp hb).2] at hp
    exact hne (Option.some.inj hp).symm

/-! ## What queries find -/

theorem touches_of_intersects (hlive : s.liveById.lookup entry.entity.id = some entry)
    (h : entry.boundingBox.intersects aabb = true) : s.Touches (.fromAabb aabb) entry := by
  obtain ⟨cell, hentry, hquery⟩ := exists_common_cell h
  exact ⟨hlive, cell, EntitySpatialCellBounds.mem_cells.mpr hentry, hquery⟩

theorem mem_filter_hits (h : s.Indexed) : entry ∈ (s.entityQueryEntries aabb).filter (s.hits aabb) ↔
    s.liveById.lookup entry.entity.id = some entry ∧ s.isAccessible entry = true ∧
      entry.boundingBox.intersects aabb = true := by
  rw [List.mem_filter, mem_entityQueryEntries h]
  unfold hits
  rw [Bool.and_eq_true]
  constructor
  · rintro ⟨htouches, hhits⟩
    exact ⟨htouches.1, hhits⟩
  · rintro ⟨hlive, hhits⟩
    exact ⟨touches_of_intersects hlive hhits.2, hhits⟩

/-- In every state of a run the two ways to go through a query visit the same entities, each once. -/
theorem boundingBoxes_perm {steps : List ((SharedEntity → EntityData F) × Operation F)}
    (hr : new.run steps = some s) (aabb : WorldAabb F) (predicate : SharedEntity → Bool) :
    (s.getEntityBoundingBoxesInAabbMatching aabb predicate).Perm
        (((s.entityQueryEntries aabb).filter fun entry => s.hits aabb entry && predicate entry.entity).map
          EntityEntry.boundingBox) ∧
      (s.hasEntityInAabbMatching aabb predicate = true ↔ s.getEntityBoundingBoxesInAabbMatching aabb predicate ≠ []) := by
  have h := indexed_run hr
  have hperm : (s.visitedEntries aabb).Perm (s.entityQueryEntries aabb) :=
    (List.perm_ext_iff_of_nodup (nodup_visitedEntries h aabb) (nodup_of_sorted (sorted_entityQueryEntries h aabb))).mpr
      fun entry => (mem_visitedEntries h).trans (mem_entityQueryEntries h).symm
  have hboxes := (hperm.filter fun entry => s.hits aabb entry && predicate entry.entity).map EntityEntry.boundingBox
  refine ⟨hboxes, ?_⟩
  unfold getEntityBoundingBoxesInAabbMatching hasEntityInAabbMatching
  rw [List.any_eq_true, Ne, List.map_eq_nil_iff, List.filter_eq_nil_iff]
  push Not
  constructor
  · rintro ⟨entry, hentry, hmatch⟩
    exact ⟨entry, hperm.mem_iff.mpr hentry, hmatch⟩
  · rintro ⟨entry, hentry, hmatch⟩
    exact ⟨entry, hperm.mem_iff.mp hentry, hmatch⟩

theorem boundingBoxes_perm_zombie : zombieState.hasEntityInAabbMatching zombieBox (fun _ => true) = true :=
  (boundingBoxes_perm run_zombieSteps zombieBox fun _ => true).2.mpr (List.ne_nil_of_length_pos (by decide))

end ManagerState
end Foton.Entities

import Foton.Entities.Manager
import Foton.Lib.Fallible

/-!
# The indexes of the entity manager

The indexes file exactly the live entities: each under its UUID, under its
section and under the cells of its box, and the ids of a cell in query order.
Each operation keeps them so, also the moves, the loads of chunks and the
unloads, which take vehicles with all their passengers. So they are right in
every state of a run.
-/

namespace Foton.Entities

variable {F : Type} [Coordinate F]

/-- The order of a live entity; an id that is not live comes before all of them. -/
def rankOf (live : LiveEntities F) (id : Int) : WithBot EntityQueryOrder :=
  (live.lookup id).elim ⊥ fun entry => (entry.queryOrder : WithBot EntityQueryOrder)

theorem rankOf_eq {live : LiveEntities F} {id : Int} {entry : EntityEntry F} (h : live.lookup id = some entry) :
    rankOf live id = entry.queryOrder := by
  unfold rankOf
  rw [h]
  rfl

theorem rankOf_congr {live live' : LiveEntities F} {id : Int} (h : live'.lookup id = live.lookup id) :
    rankOf live' id = rankOf live id := by
  unfold rankOf
  rw [h]

namespace ManagerState

theorem above_eq {live : LiveEntities F} {order : EntityQueryOrder} {id : Int} {entry : EntityEntry F}
    (h : live.lookup id = some entry) : above live order id = decide (order < entry.queryOrder) := by
  unfold above
  rw [h]
  rfl

structure Indexed (s : ManagerState F) : Prop where
  ids : ∀ id entry, s.liveById.lookup id = some entry → entry.entity.id = id
  uuids : ∀ uuid id, s.liveByUuid.lookup uuid = some id ↔ ∃ entry, s.liveById.lookup id = some entry ∧ entry.uuid = uuid
  sections : s.bySection.Files fun id key =>
    ∃ entry, s.liveById.lookup id = some entry ∧ PackedSectionPos.fromSection entry.section_ = key
  cells : s.bySpatialCell.Files fun id cell => ∃ entry, s.liveById.lookup id = some entry ∧ cell ∈ entry.spatialCells
  ranked : s.bySpatialCell.Ranked (rankOf s.liveById)
  earlier : ∀ id entry, s.liveById.lookup id = some entry → entry.sectionOrder < s.nextSectionOrder
  distinct : ∀ id id' entry entry', s.liveById.lookup id = some entry → s.liveById.lookup id' = some entry' →
    entry.sectionOrder = entry'.sectionOrder → id = id'

variable {entities : SharedEntity → EntityData F} {s s' : ManagerState F} {entry : EntityEntry F}

theorem indexed_new : (new : ManagerState F).Indexed where
  ids := by rintro id entry ⟨⟩
  uuids := by
    intro uuid id
    exact ⟨by rintro ⟨⟩, by rintro ⟨entry, ⟨⟩, -⟩⟩
  sections := OrderedIndex.files_empty.congr fun id key => ⟨False.elim, by rintro ⟨entry, ⟨⟩, -⟩⟩
  cells := OrderedIndex.files_empty.congr fun id cell => ⟨False.elim, by rintro ⟨entry, ⟨⟩, -⟩⟩
  ranked := fun cell => List.Pairwise.nil
  earlier := by rintro id entry ⟨⟩
  distinct := by rintro id id' entry entry' ⟨⟩

/-- Two states with the same indexes. -/
structure SameIndexes (s s' : ManagerState F) : Prop where
  liveById : s'.liveById = s.liveById
  liveByUuid : s'.liveByUuid = s.liveByUuid
  bySection : s'.bySection = s.bySection
  bySpatialCell : s'.bySpatialCell = s.bySpatialCell
  nextSectionOrder : s'.nextSectionOrder = s.nextSectionOrder

theorem SameIndexes.refl : SameIndexes s s := ⟨rfl, rfl, rfl, rfl, rfl⟩

theorem SameIndexes.trans {s'' : ManagerState F} (h : SameIndexes s s') (h' : SameIndexes s' s'') : SameIndexes s s'' where
  liveById := h'.liveById.trans h.liveById
  liveByUuid := h'.liveByUuid.trans h.liveByUuid
  bySection := h'.bySection.trans h.bySection
  bySpatialCell := h'.bySpatialCell.trans h.bySpatialCell
  nextSectionOrder := h'.nextSectionOrder.trans h.nextSectionOrder

theorem Indexed.same (h : s.Indexed) (hsame : SameIndexes s s') : s'.Indexed where
  ids := by rw [hsame.liveById]; exact h.ids
  uuids := by rw [hsame.liveById, hsame.liveByUuid]; exact h.uuids
  sections := by rw [hsame.liveById, hsame.bySection]; exact h.sections
  cells := by rw [hsame.liveById, hsame.bySpatialCell]; exact h.cells
  ranked := by rw [hsame.liveById, hsame.bySpatialCell]; exact h.ranked
  earlier := by rw [hsame.liveById, hsame.nextSectionOrder]; exact h.earlier
  distinct := by rw [hsame.liveById]; exact h.distinct

/-! ## Filing -/

/-- An entity that no cell has is filed under its cells, in its place by the order. -/
theorem fileCells (live : LiveEntities F) (m : OrderedIndex EntitySpatialCell Int) (id : Int) (entry : EntityEntry F)
    (hfiles : m.Files fun i cell => i ≠ id ∧ ∃ e, live.lookup i = some e ∧ cell ∈ e.spatialCells)
    (hranked : m.Ranked (rankOf live))
    (hdistinct : ∀ i e, i ≠ id → live.lookup i = some e → e.sectionOrder ≠ entry.sectionOrder) :
    ∃ cells, m.addRankedAll id (above live entry.queryOrder) entry.spatialCells = some cells ∧
      cells.Files (fun i cell => ∃ e, (live.insert id entry).lookup i = some e ∧ cell ∈ e.spatialCells) ∧
      cells.Ranked (rankOf (live.insert id entry)) := by
  obtain ⟨cells, hadd, hcells, hids⟩ := hfiles.addRankedAll (above live entry.queryOrder)
    (EntitySpatialCellBounds.nodup_cells _) fun cell _ hR => hR.1 rfl
  have hrank : ∀ cell, ∀ i ∈ m.idsAt cell, rankOf (live.insert id entry) i = rankOf live i := by
    intro cell i hi
    apply rankOf_congr
    rw [AssocList.lookup_insert, if_neg ((hfiles.mem cell i).mp hi).1]
  have hself : rankOf (live.insert id entry) id = entry.queryOrder :=
    rankOf_eq (by rw [AssocList.lookup_insert, if_pos rfl])
  refine ⟨cells, hadd, hcells.congr ?_, (hranked.congr hrank).addRankedAll hids ?_ ?_⟩
  · intro i cell
    rw [AssocList.lookup_insert]
    by_cases hi : i = id
    · rw [if_pos hi]
      simp [hi, EntityEntry.spatialCells]
    · rw [if_neg hi]
      simp [hi]
  · intro cell _ i hi
    obtain ⟨-, e, he, -⟩ := (hfiles.mem cell i).mp hi
    rw [above_eq he, hself, hrank cell i hi, rankOf_eq he]
    exact decide_eq_decide.mpr WithBot.coe_lt_coe.symm
  · intro cell _ i hi heq
    obtain ⟨hne, e, he, -⟩ := (hfiles.mem cell i).mp hi
    rw [hself, hrank cell i hi, rankOf_eq he, WithBot.coe_inj] at heq
    exact hdistinct i e hne he (congrArg (fun order => (ofLex order).2) heq)

theorem ne_of_new {live : LiveEntities F} {id i : Int} {e : EntityEntry F} (hid : live.lookup id = none)
    (he : live.lookup i = some e) : i ≠ id := by
  rintro rfl
  rw [hid] at he
  cases he

theorem Indexed.insertLiveEntry (h : s.Indexed) (hi : s.insertLiveEntry entities entry = some s') : s'.Indexed := by
  obtain ⟨hid, huuid, -, cells, hadd, rfl⟩ := insertLiveEntry_eq_some hi
  have hother : ∀ i e, s.liveById.lookup i = some e → i ≠ entry.entity.id := fun i e => ne_of_new hid
  obtain ⟨cells', hadd', hcells, hranked⟩ := fileCells s.liveById s.bySpatialCell entry.entity.id (filed entities s entry)
    (h.cells.congr fun i cell => ⟨fun ⟨e, he, hcell⟩ => ⟨hother i e he, e, he, hcell⟩, And.right⟩) h.ranked
    fun i e _ he => (h.earlier i e he).ne
  rw [hadd] at hadd'
  cases hadd'
  refine ⟨?_, ?_, ?_, hcells, hranked, ?_, ?_⟩
  · intro i e he
    rw [AssocList.lookup_insert] at he
    split at he
    · rename_i heq
      cases he
      exact heq.symm
    · exact h.ids i e he
  · intro uuid i
    rw [AssocList.lookup_insert, AssocList.lookup_insert]
    by_cases hi : i = entry.entity.id
    · rw [if_pos hi]
      constructor
      · intro hlookup
        refine ⟨_, rfl, ?_⟩
        by_contra hne
        rw [if_neg (fun heq => hne heq.symm)] at hlookup
        obtain ⟨e, he, -⟩ := (h.uuids uuid i).mp hlookup
        exact hother i e he hi
      · rintro ⟨e, he, rfl⟩
        cases he
        rw [if_pos (show (filed entities s entry).uuid = entry.uuid from rfl), hi]
    · rw [if_neg hi]
      constructor
      · intro hlookup
        split at hlookup
        · exact absurd (Option.some.inj hlookup).symm hi
        · exact (h.uuids uuid i).mp hlookup
      · intro he
        have hlookup := (h.uuids uuid i).mpr he
        rw [if_neg, hlookup]
        rintro rfl
        rw [huuid] at hlookup
        cases hlookup
  · apply (h.sections.add (k := PackedSectionPos.fromSection entry.section_) (a := entry.entity.id) ?_).congr
    · intro i key
      rw [AssocList.lookup_insert]
      by_cases hi : i = entry.entity.id
      · rw [if_pos hi, hi, hid]
        simp [filed, eq_comm]
      · rw [if_neg hi]
        simp [hi]
    · rintro ⟨e, he, -⟩
      exact hother _ e he rfl
  · intro i e he
    rw [AssocList.lookup_insert] at he
    split at he
    · cases he
      exact Nat.lt_succ_self _
    · exact (h.earlier i e he).trans (Nat.lt_succ_self _)
  · intro i i' e e' he he' heq
    rw [AssocList.lookup_insert] at he he'
    split at he <;> split at he'
    · rename_i hi hi'
      rw [hi, hi']
    · cases he
      exact absurd heq (h.earlier i' e' he').ne'
    · cases he'
      exact absurd heq (h.earlier i e he).ne
    · exact h.distinct i i' e e' he he' heq

/-- An entity can be inserted when its id and its UUID are new and an order is left. -/
theorem Indexed.insertLiveEntry_isSome (h : s.Indexed) (hid : s.liveById.lookup entry.entity.id = none)
    (huuid : s.liveByUuid.lookup entry.uuid = none) (horder : s.nextSectionOrder < 2 ^ 64 - 1) :
    (s.insertLiveEntry entities entry).isSome := by
  have hother : ∀ i e, s.liveById.lookup i = some e → i ≠ entry.entity.id := fun i e => ne_of_new hid
  obtain ⟨cells, hadd, -⟩ := fileCells s.liveById s.bySpatialCell entry.entity.id (filed entities s entry)
    (h.cells.congr fun i cell => ⟨fun ⟨e, he, hcell⟩ => ⟨hother i e he, e, he, hcell⟩, And.right⟩) h.ranked
    fun i e _ he => (h.earlier i e he).ne
  unfold ManagerState.insertLiveEntry
  dsimp only
  rw [if_neg, Option.isSome_map]
  · unfold filed at hadd
    rw [hadd]
    rfl
  · rintro (hold | hold | hold)
    · rw [hid] at hold
      cases hold
    · have hold : (s.liveByUuid.lookup entry.uuid).isSome := hold
      rw [huuid] at hold
      cases hold
    · exact hold horder

theorem Indexed.removeLiveEntry {id : Int} (h : s.Indexed) (hr : s.removeLiveEntry id = some (entry, s')) : s'.Indexed := by
  obtain ⟨hlookup, rfl⟩ := removeLiveEntry_eq_some.mp hr
  have hleft : ∀ i e, (s.liveById.erase id).lookup i = some e ↔ i ≠ id ∧ s.liveById.lookup i = some e := by
    intro i e
    rw [AssocList.lookup_erase]
    by_cases hi : i = id
    · simp [hi]
    · simp [hi]
  refine ⟨?_, ?_, ?_, ?_, ?_, ?_, ?_⟩
  · intro i e he
    exact h.ids i e ((hleft i e).mp he).2
  · intro uuid i
    dsimp only
    rw [AssocList.lookup_erase]
    simp only [hleft]
    constructor
    · intro hmem
      split at hmem
      · cases hmem
      · rename_i hne
        obtain ⟨e, he, huuid⟩ := (h.uuids uuid i).mp hmem
        refine ⟨e, ⟨?_, he⟩, huuid⟩
        rintro rfl
        rw [hlookup] at he
        cases he
        exact hne huuid.symm
    · rintro ⟨e, ⟨hne, he⟩, huuid⟩
      rw [if_neg]
      · exact (h.uuids uuid i).mpr ⟨e, he, huuid⟩
      · intro heq
        have hi := (h.uuids uuid i).mpr ⟨e, he, huuid⟩
        rw [(h.uuids uuid id).mpr ⟨entry, hlookup, heq.symm⟩] at hi
        exact hne (Option.some.inj hi).symm
  · apply h.sections.remove.congr
    intro i key
    simp only [hleft]
    constructor
    · rintro ⟨⟨e, he, hkey⟩, hnot⟩
      refine ⟨e, ⟨?_, he⟩, hkey⟩
      rintro rfl
      rw [hlookup] at he
      cases he
      exact hnot ⟨rfl, hkey.symm⟩
    · rintro ⟨e, ⟨hne, he⟩, hkey⟩
      exact ⟨⟨e, he, hkey⟩, fun hboth => hne hboth.1⟩
  · apply h.cells.removeAll.congr
    intro i cell
    simp only [hleft]
    constructor
    · rintro ⟨⟨e, he, hcell⟩, hnot⟩
      refine ⟨e, ⟨?_, he⟩, hcell⟩
      rintro rfl
      rw [hlookup] at he
      cases he
      exact hnot ⟨rfl, hcell⟩
    · rintro ⟨e, ⟨hne, he⟩, hcell⟩
      exact ⟨⟨e, he, hcell⟩, fun hboth => hne hboth.1⟩
  · apply h.ranked.removeAll.congr
    intro cell i hi
    rw [h.cells.removeAll.mem] at hi
    obtain ⟨⟨e, he, hcell⟩, hnot⟩ := hi
    apply rankOf_congr
    rw [AssocList.lookup_erase, if_neg]
    rintro rfl
    rw [hlookup] at he
    cases he
    exact hnot ⟨rfl, hcell⟩
  · intro i e he
    exact h.earlier i e ((hleft i e).mp he).2
  · intro i i' e e' he he'
    exact h.distinct i i' e e' ((hleft i e).mp he).2 ((hleft i' e').mp he').2

/-! ## Moving -/

/-- What the entry of a live entity may be replaced with. -/
structure Replaces (s : ManagerState F) (old new : EntityEntry F) : Prop where
  live : s.liveById.lookup old.entity.id = some old
  entity : new.entity = old.entity
  earlier : new.sectionOrder < s.nextSectionOrder
  distinct : ∀ i e, i ≠ old.entity.id → s.liveById.lookup i = some e → e.sectionOrder ≠ new.sectionOrder

/-- With the cells filed anew and the section corrected, a replaced entry keeps the indexes. -/
theorem Indexed.replaced {old new : EntityEntry F} {sections : OrderedIndex PackedSectionPos Int}
    {cells : OrderedIndex EntitySpatialCell Int} (h : s.Indexed) (hnew : Replaces s old new)
    (hsections : sections.Files fun id key =>
      ∃ e, (s.liveById.insert old.entity.id new).lookup id = some e ∧ PackedSectionPos.fromSection e.section_ = key)
    (hcells : cells.Files fun id cell => ∃ e, (s.liveById.insert old.entity.id new).lookup id = some e ∧ cell ∈ e.spatialCells)
    (hranked : cells.Ranked (rankOf (s.liveById.insert old.entity.id new))) :
    Indexed { s with
      bySpatialCell := cells
      liveById := s.liveById.insert old.entity.id new
      bySection := sections } where
  ids := by
    intro i e he
    rw [AssocList.lookup_insert] at he
    split at he
    · rename_i hi
      cases he
      rw [hnew.entity, hi]
    · exact h.ids i e he
  uuids := by
    intro uuid i
    dsimp only
    rw [h.uuids, AssocList.lookup_insert]
    by_cases hi : i = old.entity.id
    · rw [if_pos hi, hi, hnew.live]
      simp [EntityEntry.uuid, hnew.entity]
    · rw [if_neg hi]
  sections := hsections
  cells := hcells
  ranked := hranked
  earlier := by
    intro i e he
    rw [AssocList.lookup_insert] at he
    split at he
    · cases he
      exact hnew.earlier
    · exact h.earlier i e he
  distinct := by
    intro i i' e e' he he' heq
    rw [AssocList.lookup_insert] at he he'
    split at he <;> split at he'
    · rename_i hi hi'
      rw [hi, hi']
    · rename_i hi'
      cases he
      exact absurd heq.symm (hnew.distinct i' e' hi' he')
    · rename_i hi _
      cases he'
      exact absurd heq (hnew.distinct i e hi he)
    · exact h.distinct i i' e e' he he' heq

theorem Indexed.reindex {old new : EntityEntry F} (h : s.Indexed) (hnew : Replaces s old new) :
    ∃ s', s.reindex old new = some s' ∧ s'.Indexed ∧ s'.liveById = s.liveById.insert old.entity.id new := by
  have hmoved : ∀ i e, i = old.entity.id → s.liveById.lookup i = some e → e = old := by
    rintro i e rfl he
    rw [hnew.live] at he
    exact (Option.some.inj he).symm
  obtain ⟨cells, hadd, hcells, hranked⟩ := fileCells s.liveById
    (s.bySpatialCell.removeAll old.entity.id old.spatialCells) old.entity.id new
    (h.cells.removeAll.congr (by
      intro i cell
      constructor
      · rintro ⟨⟨e, he, hcell⟩, hnot⟩
        refine ⟨?_, e, he, hcell⟩
        intro hi
        rw [hmoved i e hi he] at hcell
        exact hnot ⟨hi, hcell⟩
      · rintro ⟨hne, e, he, hcell⟩
        exact ⟨⟨e, he, hcell⟩, fun hboth => hne hboth.1⟩))
    h.ranked.removeAll hnew.distinct
  unfold ManagerState.reindex
  dsimp only
  rw [hadd]
  refine ⟨_, rfl, h.replaced hnew ?_ hcells hranked, rfl⟩
  by_cases hsection : old.section_ = new.section_
  · rw [if_neg (by simp [hsection]), if_neg (by simp [hsection])]
    apply h.sections.congr
    intro i key
    rw [AssocList.lookup_insert]
    by_cases hi : i = old.entity.id
    · rw [if_pos hi, hi, hnew.live]
      simp [hsection]
    · rw [if_neg hi]
  · rw [if_pos (by simp [hsection]), if_pos (by simp [hsection])]
    apply (h.sections.remove.add ?_).congr
    · intro i key
      rw [AssocList.lookup_insert]
      by_cases hi : i = old.entity.id
      · rw [if_pos hi, hi, hnew.live]
        simp [eq_comm]
      · rw [if_neg hi]
        simp [hi]
    · rintro ⟨⟨e, he, hkey⟩, hnot⟩
      rw [hmoved _ e rfl he] at hkey
      exact hnot ⟨rfl, hkey.symm⟩

/-- An entry whose section and cells stay needs no filing. -/
theorem Indexed.rebox {old new : EntityEntry F} (h : s.Indexed) (hnew : Replaces s old new)
    (hsection : new.section_ = old.section_) (hcells : new.spatialCells = old.spatialCells)
    (horder : new.sectionOrder = old.sectionOrder) : Indexed { s with liveById := s.liveById.insert old.entity.id new } := by
  refine h.replaced hnew ?_ ?_ ?_
  · apply h.sections.congr
    intro i key
    rw [AssocList.lookup_insert]
    by_cases hi : i = old.entity.id
    · rw [if_pos hi, hi, hnew.live]
      simp [hsection]
    · rw [if_neg hi]
  · apply h.cells.congr
    intro i cell
    rw [AssocList.lookup_insert]
    by_cases hi : i = old.entity.id
    · rw [if_pos hi, hi, hnew.live]
      simp [hcells]
    · rw [if_neg hi]
  · apply h.ranked.congr
    intro cell i _
    by_cases hi : i = old.entity.id
    · have horders : new.queryOrder = old.queryOrder := by
        unfold EntityEntry.queryOrder
        rw [hsection, horder]
      rw [hi, rankOf_eq hnew.live, ← horders]
      exact rankOf_eq (by rw [AssocList.lookup_insert, if_pos rfl])
    · apply rankOf_congr
      rw [AssocList.lookup_insert, if_neg hi]

theorem Indexed.nextSectionOrder? {order : Nat} (h : s.Indexed) (hn : s.nextSectionOrder? = some (order, s')) :
    s'.Indexed ∧ s'.liveById = s.liveById ∧ order < s'.nextSectionOrder ∧
      ∀ i e, s.liveById.lookup i = some e → e.sectionOrder ≠ order := by
  unfold ManagerState.nextSectionOrder? at hn
  split at hn
  · cases hn
    refine ⟨⟨h.ids, h.uuids, h.sections, h.cells, h.ranked, ?_, h.distinct⟩, rfl, Nat.lt_succ_self _, ?_⟩
    · intro i e he
      exact (h.earlier i e he).trans (Nat.lt_succ_self _)
    · intro i e he
      exact (h.earlier i e he).ne
  · cases hn

/-- The order of a live entity stays its own. -/
theorem Indexed.distinct_of_live {current : EntityEntry F} (h : s.Indexed)
    (hlookup : s.liveById.lookup current.entity.id = some current) :
    ∀ i e, i ≠ current.entity.id → s.liveById.lookup i = some e → e.sectionOrder ≠ current.sectionOrder :=
  fun i e hi he heq => hi (h.distinct i _ e current he hlookup heq)

theorem Indexed.replaces_boundingBox {current : EntityEntry F} (h : s.Indexed)
    (hlookup : s.liveById.lookup current.entity.id = some current) (box : WorldAabb F) :
    Replaces s current { current with boundingBox := box } :=
  ⟨hlookup, rfl, h.earlier current.entity.id current hlookup, h.distinct_of_live hlookup⟩

theorem Indexed.commitBoundingBoxChange {id : Int} (h : s.Indexed)
    (hc : s.commitBoundingBoxChange entities id = some s') : s'.Indexed := by
  unfold ManagerState.commitBoundingBoxChange at hc
  split at hc
  · cases hc
    exact h
  · rename_i current hlookup
    obtain rfl := h.ids id current hlookup
    have hnew := h.replaces_boundingBox hlookup (entities current.entity).boundingBox
    dsimp only at hc
    split at hc
    · rename_i hcells
      cases hc
      exact h.rebox hnew rfl hcells.symm rfl
    · obtain ⟨s'', hre, hindexed, -⟩ := h.reindex hnew
      rw [hre] at hc
      cases hc
      exact hindexed

theorem Indexed.replaces_sectionOrderAt {current : EntityEntry F} {newSection : SectionPos} {order : Nat} (h : s.Indexed)
    (hlookup : s.liveById.lookup current.entity.id = some current) (box : WorldAabb F)
    (horder : s.sectionOrderAt current newSection = some (order, s')) : s'.Indexed ∧
      Replaces s' current { current with section_ := newSection, boundingBox := box, sectionOrder := order } := by
  unfold sectionOrderAt at horder
  split at horder
  · cases horder
    exact ⟨h, hlookup, rfl, h.earlier current.entity.id current hlookup, h.distinct_of_live hlookup⟩
  · obtain ⟨hindexed, hlive, hlt, hne⟩ := h.nextSectionOrder? horder
    exact ⟨hindexed, by rw [hlive]; exact hlookup, rfl, hlt, by rw [hlive]; exact fun i e _ he => hne i e he⟩

theorem Indexed.commitMove {id : Int} {newPos : Vec3 F} {result : Except EntityMoveError EntityMoveUpdate}
    (h : s.Indexed) (hc : s.commitMove entities id newPos = some (result, s')) : s'.Indexed := by
  unfold ManagerState.commitMove at hc
  split at hc
  · cases hc
    exact h
  · rename_i current hlookup
    obtain rfl := h.ids id current hlookup
    dsimp only at hc
    split at hc
    · cases hc
      exact h
    · split at hc
      · rename_i hsame
        cases hc
        exact h.rebox (h.replaces_boundingBox hlookup (entities current.entity).boundingBox) rfl hsame.2.symm rfl
      · obtain ⟨⟨order, s₁⟩, horder, hc⟩ := Option.bind_eq_some_iff.mp hc
        obtain ⟨s₂, hre, hc⟩ := Option.bind_eq_some_iff.mp hc
        cases hc
        obtain ⟨hindexed, hnew⟩ := h.replaces_sectionOrderAt hlookup (entities current.entity).boundingBox horder
        obtain ⟨s₃, hre', hindexed', -⟩ := hindexed.reindex hnew
        rw [hre'] at hre
        cases hre
        exact hindexed'.same ⟨rfl, rfl, rfl, rfl, rfl⟩

/-! ## Visibility -/

theorem sameIndexes_changeVisibility (previous new : EntityVisibility) (state : EntityLifecycleChanges × ManagerState F)
    (id : Int) : SameIndexes state.2 (changeVisibility previous new state id).2 := by
  unfold changeVisibility
  split
  · exact SameIndexes.refl
  · dsimp only
    split
    · exact SameIndexes.refl
    · exact ⟨rfl, rfl, rfl, rfl, rfl⟩

theorem sameIndexes_foldl_changeVisibility (previous new : EntityVisibility) (ids : List Int)
    (state : EntityLifecycleChanges × ManagerState F) :
    SameIndexes state.2 (ids.foldl (changeVisibility previous new) state).2 := by
  induction ids generalizing state with
  | nil => exact SameIndexes.refl
  | cons id rest ih => exact (sameIndexes_changeVisibility previous new state id).trans (ih _)

theorem sameIndexes_applyChunkVisibilityChange (s : ManagerState F) (chunk : ChunkPos) (previous new : EntityVisibility) :
    SameIndexes s (s.applyChunkVisibilityChange chunk previous new).2 :=
  sameIndexes_foldl_changeVisibility previous new (s.entityIdsInChunkOrder chunk) (.none, s)

theorem sameIndexes_updateChunkVisibility (s : ManagerState F) (chunk : ChunkPos) (visibility : EntityVisibility) :
    SameIndexes s (s.updateChunkVisibility chunk visibility).2 := by
  unfold updateChunkVisibility
  dsimp only
  split
  · exact ⟨rfl, rfl, rfl, rfl, rfl⟩
  · apply SameIndexes.trans _ (sameIndexes_applyChunkVisibilityChange _ _ _ _)
    exact ⟨rfl, rfl, rfl, rfl, rfl⟩

theorem sameIndexes_applyEntityLifecycleAfterInsert (s : ManagerState F) (id : Int) :
    SameIndexes s (s.applyEntityLifecycleAfterInsert id).2 := by
  unfold applyEntityLifecycleAfterInsert
  split
  · exact SameIndexes.refl
  · dsimp only
    split
    · exact ⟨rfl, rfl, rfl, rfl, rfl⟩
    · exact SameIndexes.refl

/-! ## Loads and unloads -/

theorem Indexed.restore {chunk : ChunkPos} {state state' : ChunkEntityLoadResult × ManagerState F} (h : state.2.Indexed)
    (hr : restore entities chunk state entry = some state') : state'.2.Indexed := by
  unfold ManagerState.restore at hr
  split at hr
  · split at hr
    · cases hr
      exact h.same ⟨rfl, rfl, rfl, rfl, rfl⟩
    · cases hr
      exact h
  · obtain ⟨s₁, hinsert, hr⟩ := Option.bind_eq_some_iff.mp hr
    cases hr
    exact (h.insertLiveEntry hinsert).same (sameIndexes_applyEntityLifecycleAfterInsert s₁ _)

theorem Indexed.onChunkLoaded {chunk : ChunkPos} {result : ChunkEntityLoadResult} (h : s.Indexed)
    (hl : s.onChunkLoaded entities chunk = some (result, s')) : s'.Indexed := by
  unfold ManagerState.onChunkLoaded at hl
  exact foldlM_invariant (P := fun state : ChunkEntityLoadResult × ManagerState F => state.2.Indexed)
    (fun _ _ _ _ h => h.restore) (h.same ⟨rfl, rfl, rfl, rfl, rfl⟩) hl

theorem Indexed.retainOne {r r' : Retention F} {id : Int} {passengers : List Int} (h : r.state.Indexed)
    (hr : retainOne entities r id = some (r', passengers)) : r'.state.Indexed := by
  unfold ManagerState.retainOne at hr
  split at hr
  · cases hr
    exact h
  · split at hr
    · cases hr
      exact h
    · rename_i entry removed hremove
      have hremoved := h.removeLiveEntry hremove
      split at hr
      · obtain ⟨s₁, hinsert, hr⟩ := Option.bind_eq_some_iff.mp hr
        cases hr
        have hinserted := hremoved.insertLiveEntry hinsert
        dsimp only
        split
        · exact hinserted.same ⟨rfl, rfl, rfl, rfl, rfl⟩
        · exact hinserted
      · cases hr
        exact hremoved

/-- A retention keeps what its steps keep. -/
theorem retainTrees_invariant {P : Retention F → Prop}
    (hstep : ∀ r id r' passengers, P r → ManagerState.retainOne entities r id = some (r', passengers) → P r')
    {r r' : Retention F} {pending : List Int} (h : P r) (hr : retainTrees entities r pending = some r') : P r' := by
  induction r, pending using retainTrees.induct entities with
  | case1 r =>
    rw [retainTrees] at hr
    cases hr
    exact h
  | case2 r id rest hone =>
    rw [retainTrees, hone] at hr
    cases hr
  | case3 r id rest r₁ passengers hone ih =>
    rw [retainTrees, hone] at hr
    exact ih (hstep r id r₁ passengers h hone) hr

theorem Indexed.beginChunkUnload {chunk : ChunkPos} {start : ChunkEntityUnloadStart} (h : s.Indexed)
    (hb : s.beginChunkUnload entities chunk = some (start, s')) : s'.Indexed := by
  unfold ManagerState.beginChunkUnload at hb
  obtain ⟨r, hretain, hb⟩ := Option.bind_eq_some_iff.mp hb
  cases hb
  have hretained : r.state.Indexed := by
    refine retainTrees_invariant (P := fun r => r.state.Indexed) (fun _ _ _ _ h => h.retainOne) ?_ hretain
    apply Indexed.same _ (sameIndexes_applyChunkVisibilityChange _ chunk (s.chunkVisibilityAt chunk) .hidden)
    exact h.same ⟨rfl, rfl, rfl, rfl, rfl⟩
  split
  · exact hretained
  · exact hretained.same ⟨rfl, rfl, rfl, rfl, rfl⟩

/-! ## Additions and removals -/

theorem Indexed.addLiveEntity {entity : SharedEntity} {ownership : EntityOwnership}
    {result : Except AddEntityError EntityLifecycleChanges} (h : s.Indexed)
    (ha : s.addLiveEntity entities entity ownership = some (result, s')) : s'.Indexed := by
  unfold ManagerState.addLiveEntity at ha
  split at ha
  · cases ha
    exact h
  · split at ha
    · cases ha
    · cases ha
      exact h
    · obtain ⟨s₁, hinsert, ha⟩ := Option.bind_eq_some_iff.mp ha
      cases ha
      exact (h.insertLiveEntry hinsert).same (sameIndexes_applyEntityLifecycleAfterInsert s₁ _)

theorem sameIndexes_lifecycles (entries : List (EntityEntry F)) (state : EntityLifecycleChanges × ManagerState F) :
    SameIndexes state.2 (entries.foldl (fun state entry =>
      ((state.1.extend (state.2.applyEntityLifecycleAfterInsert entry.entity.id).1,
        (state.2.applyEntityLifecycleAfterInsert entry.entity.id).2) : EntityLifecycleChanges × ManagerState F)) state).2 := by
  induction entries generalizing state with
  | nil => exact SameIndexes.refl
  | cons entry rest ih =>
    rw [List.foldl_cons]
    apply SameIndexes.trans _ (ih _)
    exact sameIndexes_applyEntityLifecycleAfterInsert state.2 entry.entity.id

theorem Indexed.addLiveEntityTree {tree : List SharedEntity} {ownership : EntityOwnership}
    {result : Except AddEntityError EntityLifecycleChanges} (h : s.Indexed)
    (ha : s.addLiveEntityTree entities tree ownership = some (result, s')) : s'.Indexed := by
  unfold ManagerState.addLiveEntityTree at ha
  split at ha
  · cases ha
    exact h
  · rename_i entries _
    split at ha
    · cases ha
    · cases ha
      exact h
    · cases ha
    · cases ha
      exact h
    · obtain ⟨s₁, hinsert, ha⟩ := Option.bind_eq_some_iff.mp ha
      cases ha
      have hinserted := foldlM_invariant (P := Indexed) (fun _ _ _ _ h => h.insertLiveEntry) h hinsert
      exact hinserted.same (sameIndexes_lifecycles entries (.none, s₁))

theorem Indexed.removeLiveEntity {id : Int} {reason : RemovalReason} (h : s.Indexed) :
    (s.removeLiveEntity entities id reason).2.Indexed := by
  unfold ManagerState.removeLiveEntity
  split
  · exact h
  · rename_i entry s₁ hremove
    have hremoved := h.removeLiveEntry hremove
    dsimp only
    split
    · exact hremoved.same ⟨rfl, rfl, rfl, rfl, rfl⟩
    · exact hremoved

theorem sameIndexes_onChunkSaved (s : ManagerState F) (chunk : ChunkPos) (ids : List Int) :
    SameIndexes s (s.onChunkSaved chunk ids) := by
  unfold onChunkSaved
  split
  · exact SameIndexes.refl
  · split
    · exact SameIndexes.refl
    · dsimp only
      split
      · exact ⟨rfl, rfl, rfl, rfl, rfl⟩
      · exact ⟨rfl, rfl, rfl, rfl, rfl⟩

theorem sameIndexes_releaseInboundChunk (s : ManagerState F) (chunk : ChunkPos) :
    SameIndexes s (s.releaseInboundChunk chunk) := by
  unfold releaseInboundChunk
  split
  · exact SameIndexes.refl
  · split
    · exact ⟨rfl, rfl, rfl, rfl, rfl⟩
    · exact ⟨rfl, rfl, rfl, rfl, rfl⟩

end ManagerState

/-! ## Runs -/

inductive Operation (F : Type) where
  | addLiveEntity (entity : SharedEntity) (ownership : EntityOwnership)
  | addLiveEntityTree (tree : List SharedEntity) (ownership : EntityOwnership)
  | removeLiveEntity (id : Int) (reason : RemovalReason)
  | commitMove (id : Int) (newPos : Vec3 F)
  | commitBoundingBoxChange (id : Int)
  | updateChunkVisibility (chunk : ChunkPos) (visibility : EntityVisibility)
  | reserveInboundChunk (chunk : ChunkPos)
  | releaseInboundChunk (chunk : ChunkPos)
  | onChunkLoaded (chunk : ChunkPos)
  | beginChunkUnload (chunk : ChunkPos)
  | finalizeChunkUnload (chunk : ChunkPos)
  | onChunkSaved (chunk : ChunkPos) (savedEntityIds : List Int)

namespace ManagerState

variable {entities : SharedEntity → EntityData F} {s s' : ManagerState F} {op : Operation F}

/-- The state after an operation, or none after a panic. -/
def exec (entities : SharedEntity → EntityData F) (s : ManagerState F) : Operation F → Option (ManagerState F)
  | .addLiveEntity entity ownership => (s.addLiveEntity entities entity ownership).map Prod.snd
  | .addLiveEntityTree tree ownership => (s.addLiveEntityTree entities tree ownership).map Prod.snd
  | .removeLiveEntity id reason => some (s.removeLiveEntity entities id reason).2
  | .commitMove id newPos => (s.commitMove entities id newPos).map Prod.snd
  | .commitBoundingBoxChange id => s.commitBoundingBoxChange entities id
  | .updateChunkVisibility chunk visibility => some (s.updateChunkVisibility chunk visibility).2
  | .reserveInboundChunk chunk => some (s.reserveInboundChunk chunk)
  | .releaseInboundChunk chunk => some (s.releaseInboundChunk chunk)
  | .onChunkLoaded chunk => (s.onChunkLoaded entities chunk).map Prod.snd
  | .beginChunkUnload chunk => (s.beginChunkUnload entities chunk).map Prod.snd
  | .finalizeChunkUnload chunk => some (s.finalizeChunkUnload chunk).2
  | .onChunkSaved chunk ids => some (s.onChunkSaved chunk ids)

/-- Operations one after the other, each with the entities as they are then. -/
def run (s : ManagerState F) (steps : List ((SharedEntity → EntityData F) × Operation F)) : Option (ManagerState F) :=
  steps.foldlM (fun s step => s.exec step.1 step.2) s

theorem Indexed.exec (h : s.Indexed) (he : s.exec entities op = some s') : s'.Indexed := by
  cases op with
  | addLiveEntity entity ownership =>
    obtain ⟨⟨result, s₁⟩, ha, rfl⟩ := Option.map_eq_some_iff.mp he
    exact h.addLiveEntity ha
  | addLiveEntityTree tree ownership =>
    obtain ⟨⟨result, s₁⟩, ha, rfl⟩ := Option.map_eq_some_iff.mp he
    exact h.addLiveEntityTree ha
  | removeLiveEntity id reason =>
    cases he
    exact h.removeLiveEntity
  | commitMove id newPos =>
    obtain ⟨⟨result, s₁⟩, hc, rfl⟩ := Option.map_eq_some_iff.mp he
    exact h.commitMove hc
  | commitBoundingBoxChange id => exact h.commitBoundingBoxChange he
  | updateChunkVisibility chunk visibility =>
    cases he
    exact h.same (sameIndexes_updateChunkVisibility s chunk visibility)
  | reserveInboundChunk chunk =>
    cases he
    exact h.same ⟨rfl, rfl, rfl, rfl, rfl⟩
  | releaseInboundChunk chunk =>
    cases he
    exact h.same (sameIndexes_releaseInboundChunk s chunk)
  | onChunkLoaded chunk =>
    obtain ⟨⟨result, s₁⟩, hl, rfl⟩ := Option.map_eq_some_iff.mp he
    exact h.onChunkLoaded hl
  | beginChunkUnload chunk =>
    obtain ⟨⟨start, s₁⟩, hb, rfl⟩ := Option.map_eq_some_iff.mp he
    exact h.beginChunkUnload hb
  | finalizeChunkUnload chunk =>
    cases he
    exact h.same ⟨rfl, rfl, rfl, rfl, rfl⟩
  | onChunkSaved chunk ids =>
    cases he
    exact h.same (sameIndexes_onChunkSaved s chunk ids)

theorem indexed_run {steps : List ((SharedEntity → EntityData F) × Operation F)} (hr : new.run steps = some s) : s.Indexed :=
  foldlM_invariant (P := Indexed) (fun _ _ _ _ h => h.exec) indexed_new hr

end ManagerState

/-! ## A zombie that joins a tracked chunk -/

instance : Coordinate Int where
  blockCoord := id
  cellCoord c := (c + 2) / 4
  cellCoord_mono h := Int.ediv_le_ediv (by decide) (Int.add_le_add_right h 2)

def zombie : SharedEntity := ⟨7, 700, false, true⟩

def zombieBox : WorldAabb Int := ⟨⟨0, 64, 0⟩, ⟨1, 66, 1⟩, by decide, by decide, by decide⟩

def zombieData : EntityData Int := ⟨⟨0, 64, 0⟩, zombieBox, none, true, none, [], false⟩

def zombieSteps : List ((SharedEntity → EntityData Int) × Operation Int) :=
  [(fun _ => zombieData, .updateChunkVisibility ⟨0, 0⟩ .ticking), (fun _ => zombieData, .addLiveEntity zombie .managerOwned)]

def zombieState : ManagerState Int := (ManagerState.new.run zombieSteps).getD ManagerState.new

theorem run_zombieSteps : ManagerState.new.run zombieSteps = some zombieState := rfl

end Foton.Entities

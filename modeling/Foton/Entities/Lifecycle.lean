import Foton.Entities.Indexes

/-!
# The lists of the entity manager

The tick list has exactly the live entities that tick, and the accessible order
exactly those that are accessible. A change of a chunk's visibility moves its
entities in and out of them, so this is for worlds whose chunks packing tells
apart. An entity that the manager owns and that always ticks keeps its place in
the accessible order when its chunk's visibility changes; nothing is said about
it.
-/

namespace Foton.Entities

variable {F : Type} [Coordinate F]

namespace ManagerState

/-- Entities that always tick are owned elsewhere, as players are. -/
def Regular (entry : EntityEntry F) : Prop := entry.entity.isAlwaysTicking = true → entry.ownership = .external

/-- The lists are right, with the visibility that entities have, but for the ticking of those that are pending. -/
structure ListedWith (visibility : Int → EntityEntry F → EntityVisibility) (pending : Int → Prop) (s : ManagerState F) : Prop where
  live : ∀ id ∈ s.accessibleOrder.ids, ∃ entry, s.liveById.lookup id = some entry
  accessible : ∀ id entry, s.liveById.lookup id = some entry → Regular entry →
    (id ∈ s.accessibleOrder.ids ↔ (decide (entry.ownership = .external) || (visibility id entry).isAccessible) = true)
  ticking : ∀ id, id ∈ s.tickList.ids ↔
    ¬ pending id ∧ ∃ entry, s.liveById.lookup id = some entry ∧ (entry.lifecycleVisibility (visibility id entry)).isTicking = true

/-- The lists are right but for the ticking of those that are pending. -/
def ListedBut (pending : Int → Prop) (s : ManagerState F) : Prop :=
  s.ListedWith (fun _ entry => s.chunkVisibilityAt entry.chunk) pending

def Listed (s : ManagerState F) : Prop := s.ListedBut fun _ => False

/-- The live entities, and those that may come back, are in chunks of the world. -/
structure InWorld (s : ManagerState F) : Prop where
  live : ∀ id entry, s.liveById.lookup id = some entry → InRange entry.chunk
  unloading : ∀ chunk entries, s.unloadingByChunk.lookup chunk = some entries → ∀ entry ∈ entries, InRange entry.chunk

variable {entities : SharedEntity → EntityData F} {s s' : ManagerState F} {entry : EntityEntry F}
variable {visibility visibility' : Int → EntityEntry F → EntityVisibility} {pending pending' : Int → Prop}

theorem ListedWith.congr (h : s.ListedWith visibility pending)
    (hvisibility : ∀ id entry, s.liveById.lookup id = some entry → visibility' id entry = visibility id entry)
    (hpending : ∀ id entry, s.liveById.lookup id = some entry → (pending' id ↔ pending id)) :
    s.ListedWith visibility' pending' where
  live := h.live
  accessible := by
    intro id entry hlookup hregular
    rw [h.accessible id entry hlookup hregular, hvisibility id entry hlookup]
  ticking := by
    intro id
    rw [h.ticking]
    constructor
    · rintro ⟨hnot, entry, hlookup, hticks⟩
      exact ⟨(hpending id entry hlookup).not.mpr hnot, entry, hlookup, by rw [hvisibility id entry hlookup]; exact hticks⟩
    · rintro ⟨hnot, entry, hlookup, hticks⟩
      exact ⟨(hpending id entry hlookup).not.mp hnot, entry, hlookup, by rw [← hvisibility id entry hlookup]; exact hticks⟩

/-- Two states with the same lists and live entities. -/
structure SameLists (s s' : ManagerState F) : Prop where
  liveById : s'.liveById = s.liveById
  accessibleOrder : s'.accessibleOrder = s.accessibleOrder
  tickList : s'.tickList = s.tickList

theorem ListedWith.same (h : s.ListedWith visibility pending) (hsame : SameLists s s') : s'.ListedWith visibility pending where
  live := by rw [hsame.liveById, hsame.accessibleOrder]; exact h.live
  accessible := by rw [hsame.liveById, hsame.accessibleOrder]; exact h.accessible
  ticking := by rw [hsame.liveById, hsame.tickList]; exact h.ticking

theorem listed_new : (new : ManagerState F).Listed where
  live := by rintro id ⟨⟩
  accessible := by rintro id entry ⟨⟩
  ticking := by
    intro id
    exact ⟨by rintro ⟨⟩, by rintro ⟨-, entry, ⟨⟩, -⟩⟩

/-! ## Insertions and removals -/

theorem ListedBut.insertLiveEntry (h : s.ListedBut pending) (hi : s.insertLiveEntry entities entry = some s') :
    s'.ListedBut fun id => pending id ∨ id = entry.entity.id := by
  obtain ⟨hid, -, -, cells, -, rfl⟩ := insertLiveEntry_eq_some hi
  have hother : ∀ i e, s.liveById.lookup i = some e → i ≠ entry.entity.id := fun i e => ne_of_new hid
  have hnew : entry.entity.id ∉ s.accessibleOrder.ids := by
    intro hmem
    obtain ⟨e, he⟩ := h.live _ hmem
    exact hother _ e he rfl
  refine ⟨?_, ?_, ?_⟩
  · intro id hmem
    dsimp only at hmem ⊢
    rw [AssocList.lookup_insert]
    split
    · exact ⟨_, rfl⟩
    · rename_i hne
      split at hmem
      · exact h.live id ((OrderedIds.mem_insert.mp hmem).resolve_right hne)
      · exact h.live id hmem
  · intro id e he hregular
    dsimp only at he ⊢
    rw [AssocList.lookup_insert] at he
    split at he
    · rename_i heq
      cases he
      change _ ↔ s.isAccessible entry = true
      split
      · rename_i haccessible
        simp [OrderedIds.mem_insert, heq, haccessible]
      · rename_i haccessible
        simp [heq, hnew, haccessible]
    · rename_i hne
      refine Iff.trans ?_ (h.accessible id e he hregular)
      split
      · simp [OrderedIds.mem_insert, hne]
      · rfl
  · intro id
    dsimp only
    rw [h.ticking, AssocList.lookup_insert]
    by_cases hi : id = entry.entity.id
    · rw [if_pos hi, hi, hid]
      simp
    · rw [if_neg hi]
      simp [hi, chunkVisibilityAt]

theorem ListedBut.applyEntityLifecycleAfterInsert (h : s.ListedBut pending) (id : Int) :
    (s.applyEntityLifecycleAfterInsert id).2.ListedBut fun i => pending i ∧ i ≠ id := by
  unfold ManagerState.applyEntityLifecycleAfterInsert
  split
  · rename_i hlookup
    apply ListedWith.congr h (fun _ _ _ => rfl)
    intro i e he
    constructor
    · exact And.left
    · intro hpending
      refine ⟨hpending, ?_⟩
      rintro rfl
      rw [hlookup] at he
      cases he
  · rename_i e hlookup
    dsimp only
    refine ⟨?_, ?_, ?_⟩
    · split
      · exact h.live
      · exact h.live
    · split
      · exact h.accessible
      · exact h.accessible
    · intro i
      by_cases hi : i = id
      · subst hi
        split
        · rename_i hticks
          simp only [OrderedIds.mem_insert, or_true, true_iff]
          exact ⟨fun hboth => hboth.2 rfl, e, hlookup, hticks⟩
        · rename_i hticks
          rw [h.ticking]
          constructor
          · rintro ⟨-, e', he', hticks'⟩
            rw [hlookup] at he'
            cases he'
            exact absurd hticks' hticks
          · rintro ⟨-, e', he', hticks'⟩
            rw [hlookup] at he'
            cases he'
            exact absurd hticks' hticks
      · split
        · dsimp only
          rw [OrderedIds.mem_insert, h.ticking]
          simp [hi, chunkVisibilityAt]
        · rw [h.ticking]
          simp [hi]

theorem ListedBut.removeLiveEntry {id : Int} (h : s.ListedBut pending) (hr : s.removeLiveEntry id = some (entry, s')) :
    s'.ListedBut pending := by
  obtain ⟨hlookup, rfl⟩ := removeLiveEntry_eq_some.mp hr
  refine ⟨?_, ?_, ?_⟩
  · intro i hmem
    obtain ⟨hmem, hne⟩ := OrderedIds.mem_remove.mp hmem
    dsimp only
    rw [AssocList.lookup_erase, if_neg hne]
    exact h.live i hmem
  · intro i e he hregular
    dsimp only at he ⊢
    rw [AssocList.lookup_erase] at he
    split at he
    · cases he
    · rename_i hne
      rw [OrderedIds.mem_remove, h.accessible i e he hregular]
      simp [hne, chunkVisibilityAt]
  · intro i
    dsimp only
    rw [OrderedIds.mem_remove, h.ticking, AssocList.lookup_erase]
    by_cases hi : i = id
    · rw [if_pos hi]
      simp [hi]
    · rw [if_neg hi]
      simp [hi, chunkVisibilityAt]

/-! ## Moves -/

theorem reindex_eq_some {old new : EntityEntry F} (h : s.reindex old new = some s') :
    s'.liveById = s.liveById.insert old.entity.id new ∧ s'.accessibleOrder = s.accessibleOrder ∧ s'.tickList = s.tickList ∧
      s'.chunkVisibility = s.chunkVisibility ∧ s'.unloadingByChunk = s.unloadingByChunk ∧
      s'.savePendingByChunk = s.savePendingByChunk := by
  unfold reindex at h
  obtain ⟨cells, -, rfl⟩ := Option.map_eq_some_iff.mp h
  exact ⟨rfl, rfl, rfl, rfl, rfl, rfl⟩

/-- A live entity has a new entry, and is in and out of the lists as that says. -/
structure Rewritten (s s' : ManagerState F) (old new : EntityEntry F) : Prop where
  live : s.liveById.lookup old.entity.id = some old
  entity : new.entity = old.entity
  ownership : new.ownership = old.ownership
  liveById : s'.liveById = s.liveById.insert old.entity.id new
  accessibleOrder : s'.accessibleOrder = s.accessibleOrder.toggle old.entity.id (s.isAccessible old) (s.isAccessible new)
  tickList : s'.tickList = s.tickList.toggle old.entity.id (s.ticks old) (s.ticks new)
  chunkVisibility : s'.chunkVisibility = s.chunkVisibility
  unloadingByChunk : s'.unloadingByChunk = s.unloadingByChunk
  savePendingByChunk : s'.savePendingByChunk = s.savePendingByChunk

theorem Listed.rewritten {old new : EntityEntry F} (h : s.Listed) (hr : Rewritten s s' old new) : s'.Listed := by
  have hvisibility : ∀ chunk, s'.chunkVisibilityAt chunk = s.chunkVisibilityAt chunk := by
    intro chunk
    unfold chunkVisibilityAt
    rw [hr.chunkVisibility]
  refine ⟨?_, ?_, ?_⟩
  · intro i hmem
    rw [hr.liveById, AssocList.lookup_insert]
    split
    · exact ⟨new, rfl⟩
    · rename_i hne
      rw [hr.accessibleOrder, OrderedIds.mem_toggle_ne hne] at hmem
      exact h.live i hmem
  · intro i e he hregular
    rw [hr.liveById, AssocList.lookup_insert] at he
    rw [hr.accessibleOrder, hvisibility]
    split at he
    · rename_i heq
      cases he
      have hold : Regular old := by
        unfold Regular at hregular ⊢
        rwa [hr.entity, hr.ownership] at hregular
      rw [heq]
      exact OrderedIds.mem_toggle (Or.inl (h.accessible _ old hr.live hold))
    · rename_i hne
      rw [OrderedIds.mem_toggle_ne hne]
      exact h.accessible i e he hregular
  · intro i
    rw [hr.liveById, AssocList.lookup_insert, hr.tickList]
    by_cases hi : i = old.entity.id
    · rw [if_pos hi, hi, OrderedIds.mem_toggle]
      · unfold ticks
        simp [hvisibility]
      · apply Or.inl
        rw [h.ticking, hr.live]
        unfold ticks
        simp
    · rw [if_neg hi, OrderedIds.mem_toggle_ne hi, h.ticking]
      simp only [hvisibility]

theorem commitBoundingBoxChange_cases {id : Int} (h : s.Indexed) (hc : s.commitBoundingBoxChange entities id = some s') :
    s' = s ∨ ∃ old new, Rewritten s s' old new ∧ new.chunk = old.chunk := by
  unfold commitBoundingBoxChange at hc
  split at hc
  · cases hc
    exact Or.inl rfl
  · rename_i current hlookup
    obtain rfl := h.ids id current hlookup
    refine Or.inr ⟨current, { current with boundingBox := (entities current.entity).boundingBox }, ?_, rfl⟩
    dsimp only at hc
    split at hc
    · cases hc
      exact ⟨hlookup, rfl, rfl, rfl, (OrderedIds.toggle_self _ _ _).symm, (OrderedIds.toggle_self _ _ _).symm, rfl, rfl, rfl⟩
    · obtain ⟨hlive, haccessible, htick, hvisibility, hunloading, hpending⟩ := reindex_eq_some hc
      exact ⟨hlookup, rfl, rfl, hlive, haccessible.trans (OrderedIds.toggle_self _ _ _).symm,
        htick.trans (OrderedIds.toggle_self _ _ _).symm, hvisibility, hunloading, hpending⟩

theorem sectionOrderAt_eq_some {current : EntityEntry F} {newSection : SectionPos} {order : Nat}
    (h : s.sectionOrderAt current newSection = some (order, s')) :
    s'.liveById = s.liveById ∧ s'.accessibleOrder = s.accessibleOrder ∧ s'.tickList = s.tickList ∧
      s'.chunkVisibility = s.chunkVisibility ∧ s'.unloadingByChunk = s.unloadingByChunk ∧
      s'.savePendingByChunk = s.savePendingByChunk := by
  unfold sectionOrderAt at h
  split at h
  · cases h
    exact ⟨rfl, rfl, rfl, rfl, rfl, rfl⟩
  · unfold nextSectionOrder? at h
    split at h
    · cases h
      exact ⟨rfl, rfl, rfl, rfl, rfl, rfl⟩
    · cases h

theorem commitMove_cases {id : Int} {newPos : Vec3 F} {result : Except EntityMoveError EntityMoveUpdate} (h : s.Indexed)
    (hc : s.commitMove entities id newPos = some (result, s')) :
    s' = s ∨ ∃ old new, Rewritten s s' old new ∧ new.chunk = (SectionPos.fromEntityPos newPos).chunk := by
  unfold commitMove at hc
  split at hc
  · cases hc
    exact Or.inl rfl
  · rename_i current hlookup
    obtain rfl := h.ids id current hlookup
    dsimp only at hc
    split at hc
    · cases hc
      exact Or.inl rfl
    · split at hc
      · rename_i hsame
        cases hc
        refine Or.inr ⟨current, { current with boundingBox := (entities current.entity).boundingBox }, ?_,
          congrArg Poi.SectionPos.chunk hsame.1⟩
        exact ⟨hlookup, rfl, rfl, rfl, (OrderedIds.toggle_self _ _ _).symm, (OrderedIds.toggle_self _ _ _).symm, rfl, rfl, rfl⟩
      · obtain ⟨⟨order, s₁⟩, horder, hc⟩ := Option.bind_eq_some_iff.mp hc
        obtain ⟨s₂, hre, hc⟩ := Option.bind_eq_some_iff.mp hc
        cases hc
        obtain ⟨hlive₁, haccessible₁, htick₁, hvisibility₁, hunloading₁, hpending₁⟩ := sectionOrderAt_eq_some horder
        obtain ⟨hlive, haccessible, htick, hvisibility, hunloading, hpending⟩ := reindex_eq_some hre
        refine Or.inr ⟨current, { current with
          section_ := SectionPos.fromEntityPos newPos
          boundingBox := (entities current.entity).boundingBox
          sectionOrder := order }, ⟨hlookup, rfl, rfl, ?_, ?_, ?_, ?_, ?_, ?_⟩, rfl⟩
        · exact hlive.trans (by rw [hlive₁])
        · dsimp only
          rw [haccessible, haccessible₁]
          rfl
        · dsimp only
          rw [htick, htick₁]
          rfl
        · exact hvisibility.trans hvisibility₁
        · exact hunloading.trans hunloading₁
        · exact hpending.trans hpending₁

/-! ## Changes of visibility -/

theorem mem_entityIdsInChunkOrder (h : s.Indexed) (hworld : s.InWorld) {chunk : ChunkPos} (hchunk : InRange chunk) (id : Int) :
    id ∈ s.entityIdsInChunkOrder chunk ↔ ∃ entry, s.liveById.lookup id = some entry ∧ entry.chunk = chunk := by
  unfold entityIdsInChunkOrder
  rw [h.sections.mem_rangeIds]
  constructor
  · rintro ⟨key, hfirst, hlast, entry, hlookup, rfl⟩
    exact ⟨entry, hlookup, (mem_chunkRange_iff (hworld.live id entry hlookup) hchunk).mp ⟨hfirst, hlast⟩⟩
  · rintro ⟨entry, hlookup, heq⟩
    obtain ⟨hfirst, hlast⟩ := (mem_chunkRange_iff (hworld.live id entry hlookup) hchunk).mpr heq
    exact ⟨_, hfirst, hlast, entry, hlookup, rfl⟩

theorem lifecycleVisibility_external (h : entry.ownership ≠ .managerOwned) (v w : EntityVisibility) :
    entry.lifecycleVisibility v = entry.lifecycleVisibility w := by
  have hexternal : entry.ownership = .external := by
    cases howner : entry.ownership with
    | managerOwned => exact absurd howner h
    | external => rfl
  unfold EntityEntry.lifecycleVisibility
  rw [if_pos hexternal, if_pos hexternal]

theorem lifecycleVisibility_regular (h : Regular entry) (howner : entry.ownership = .managerOwned) (v : EntityVisibility) :
    entry.lifecycleVisibility v = v := by
  unfold EntityEntry.lifecycleVisibility
  rw [if_neg, if_neg (by rw [howner]; decide)]
  intro hticking
  rw [h hticking] at howner
  cases howner

/-- One live entity is in and out of the lists as its new visibility says. -/
theorem ListedWith.settled {id : Int} {v : EntityVisibility} (h : s.ListedWith visibility fun _ => False)
    (hlookup : s.liveById.lookup id = some entry) (hlive : s'.liveById = s.liveById)
    (haccessible : Regular entry →
      (id ∈ s'.accessibleOrder.ids ↔ (decide (entry.ownership = .external) || v.isAccessible) = true))
    (haccessible' : ∀ i, i ≠ id → (i ∈ s'.accessibleOrder.ids ↔ i ∈ s.accessibleOrder.ids))
    (htick : id ∈ s'.tickList.ids ↔ (entry.lifecycleVisibility v).isTicking = true)
    (htick' : ∀ i, i ≠ id → (i ∈ s'.tickList.ids ↔ i ∈ s.tickList.ids)) :
    s'.ListedWith (fun i e => if i = id then v else visibility i e) fun _ => False where
  live := by
    intro i hmem
    rw [hlive]
    by_cases hi : i = id
    · exact ⟨entry, by rw [hi]; exact hlookup⟩
    · exact h.live i ((haccessible' i hi).mp hmem)
  accessible := by
    intro i e he hregular
    rw [hlive] at he
    by_cases hi : i = id
    · rw [hi, hlookup] at he
      cases he
      rw [if_pos hi, hi]
      exact haccessible hregular
    · rw [if_neg hi, haccessible' i hi]
      exact h.accessible i e he hregular
  ticking := by
    intro i
    rw [hlive]
    by_cases hi : i = id
    · rw [hi, htick, hlookup]
      simp
    · rw [htick' i hi, h.ticking]
      simp [hi]

/-- An entity that has the previous visibility, or the new one already, has the new one then. -/
theorem ListedWith.changeVisibility {previous new : EntityVisibility} {state : EntityLifecycleChanges × ManagerState F} {id : Int}
    (h : state.2.ListedWith visibility fun _ => False)
    (hvisibility : ∀ entry, state.2.liveById.lookup id = some entry → visibility id entry = previous ∨ visibility id entry = new) :
    (changeVisibility previous new state id).2.ListedWith (fun i entry => if i = id then new else visibility i entry)
      fun _ => False := by
  unfold ManagerState.changeVisibility
  split
  · rename_i hlookup
    apply h.congr _ fun _ _ _ => Iff.rfl
    intro i e he
    rw [if_neg]
    rintro rfl
    rw [hlookup] at he
    cases he
  · rename_i entry hlookup
    have hticking : id ∈ state.2.tickList.ids ↔ (entry.lifecycleVisibility (visibility id entry)).isTicking = true := by
      rw [h.ticking, hlookup]
      simp
    have haccessible := h.accessible id entry hlookup
    have hold := hvisibility entry hlookup
    dsimp only
    split
    · rename_i hskip
      refine h.settled hlookup rfl ?_ (fun _ _ => Iff.rfl) ?_ fun _ _ => Iff.rfl
      · intro hregular
        rw [haccessible hregular]
        cases howner : entry.ownership with
        | external => simp
        | managerOwned =>
          have hsame := hskip.resolve_left (not_not.mpr howner)
          rw [lifecycleVisibility_regular hregular howner, lifecycleVisibility_regular hregular howner] at hsame
          rw [hsame, or_self] at hold
          rw [hold]
      · rw [hticking]
        rcases hskip with howner | hsame
        · rw [lifecycleVisibility_external howner _ new]
        · rcases hold with hold | hold
          · rw [hold, hsame]
          · rw [hold]
    · rename_i hchange
      rw [not_or, not_not] at hchange
      refine h.settled hlookup rfl ?_ (fun _ hi => OrderedIds.mem_toggle_ne hi) ?_ fun _ hi => OrderedIds.mem_toggle_ne hi
      · intro hregular
        have hmem := haccessible hregular
        rw [hchange.1] at hmem ⊢
        rw [lifecycleVisibility_regular hregular hchange.1, lifecycleVisibility_regular hregular hchange.1]
        refine OrderedIds.mem_toggle ?_
        rcases hold with hold | hold
        · rw [hold] at hmem
          exact Or.inl hmem
        · rw [hold] at hmem
          exact Or.inr hmem
      · refine OrderedIds.mem_toggle ?_
        rcases hold with hold | hold
        · rw [hold] at hticking
          exact Or.inl hticking
        · rw [hold] at hticking
          exact Or.inr hticking

theorem ListedWith.foldl_changeVisibility (previous new : EntityVisibility) (ids : List Int)
    (state : EntityLifecycleChanges × ManagerState F) (h : state.2.ListedWith visibility fun _ => False)
    (hvisibility : ∀ id ∈ ids, ∀ entry, state.2.liveById.lookup id = some entry →
      visibility id entry = previous ∨ visibility id entry = new) :
    (ids.foldl (ManagerState.changeVisibility previous new) state).2.ListedWith
      (fun i entry => if i ∈ ids then new else visibility i entry) fun _ => False := by
  induction ids generalizing state visibility with
  | nil => exact h.congr (fun _ _ _ => by rw [if_neg List.not_mem_nil]) fun _ _ _ => Iff.rfl
  | cons id rest ih =>
    have hstep := h.changeVisibility (hvisibility id List.mem_cons_self)
    have hrest := ih _ hstep fun i hi entry hlookup => by
      rw [(sameIndexes_changeVisibility previous new state id).liveById] at hlookup
      by_cases heq : i = id
      · exact Or.inr (if_pos heq)
      · rw [if_neg heq]
        exact hvisibility i (List.mem_cons_of_mem id hi) entry hlookup
    apply hrest.congr _ fun _ _ _ => Iff.rfl
    intro i entry _
    by_cases hrest : i ∈ rest
    · rw [if_pos hrest, if_pos (List.mem_cons_of_mem id hrest)]
    · by_cases heq : i = id
      · simp [heq]
      · simp [heq, hrest]

/-- The lists are right after a change that they were right before. -/
theorem Listed.applyChunkVisibilityChange {chunk : ChunkPos} {previous : EntityVisibility} (h : s.Indexed) (hworld : s.InWorld)
    (hchunk : InRange chunk) (hlisted : s.ListedWith
      (fun _ entry => if entry.chunk = chunk then previous else s.chunkVisibilityAt entry.chunk) fun _ => False) :
    (s.applyChunkVisibilityChange chunk previous (s.chunkVisibilityAt chunk)).2.ListedWith
      (fun _ entry => s.chunkVisibilityAt entry.chunk) fun _ => False := by
  have hids := mem_entityIdsInChunkOrder h hworld hchunk
  have hfold := ListedWith.foldl_changeVisibility previous (s.chunkVisibilityAt chunk) (s.entityIdsInChunkOrder chunk)
    (.none, s) hlisted fun id hid entry hlookup => by
      obtain ⟨entry', hlookup', heq⟩ := (hids id).mp hid
      have hsame : some entry' = some entry := hlookup'.symm.trans hlookup
      cases hsame
      exact Or.inl (if_pos heq)
  apply hfold.congr _ fun _ _ _ => Iff.rfl
  intro id entry hlookup
  have hlookup : s.liveById.lookup id = some entry := by
    rw [← (sameIndexes_applyChunkVisibilityChange s chunk previous (s.chunkVisibilityAt chunk)).liveById]
    exact hlookup
  by_cases heq : entry.chunk = chunk
  · rw [if_pos ((hids id).mpr ⟨entry, hlookup, heq⟩), heq]
  · rw [if_neg, if_neg heq]
    intro hid
    obtain ⟨entry', hlookup', heq'⟩ := (hids id).mp hid
    rw [hlookup] at hlookup'
    cases hlookup'
    exact heq heq'

/-- Two states with the same chunks and the same entities that are not live. -/
structure SameChunks (s s' : ManagerState F) : Prop where
  chunkVisibility : s'.chunkVisibility = s.chunkVisibility
  unloadingByChunk : s'.unloadingByChunk = s.unloadingByChunk
  savePendingByChunk : s'.savePendingByChunk = s.savePendingByChunk

theorem SameChunks.trans {s'' : ManagerState F} (h : SameChunks s s') (h' : SameChunks s' s'') : SameChunks s s'' :=
  ⟨h'.1.trans h.1, h'.2.trans h.2, h'.3.trans h.3⟩

theorem sameChunks_foldl_changeVisibility (previous new : EntityVisibility) (ids : List Int)
    (state : EntityLifecycleChanges × ManagerState F) :
    SameChunks state.2 (ids.foldl (changeVisibility previous new) state).2 := by
  induction ids generalizing state with
  | nil => exact ⟨rfl, rfl, rfl⟩
  | cons id rest ih =>
    apply SameChunks.trans _ (ih _)
    unfold changeVisibility
    split
    · exact ⟨rfl, rfl, rfl⟩
    · dsimp only
      split
      · exact ⟨rfl, rfl, rfl⟩
      · exact ⟨rfl, rfl, rfl⟩

theorem sameChunks_applyEntityLifecycleAfterInsert (s : ManagerState F) (id : Int) :
    SameChunks s (s.applyEntityLifecycleAfterInsert id).2 := by
  unfold applyEntityLifecycleAfterInsert
  split
  · exact ⟨rfl, rfl, rfl⟩
  · dsimp only
    split
    · exact ⟨rfl, rfl, rfl⟩
    · exact ⟨rfl, rfl, rfl⟩

theorem sameChunks_lifecycles (entries : List (EntityEntry F)) (state : EntityLifecycleChanges × ManagerState F) :
    SameChunks state.2 (entries.foldl (fun state entry =>
      ((state.1.extend (state.2.applyEntityLifecycleAfterInsert entry.entity.id).1,
        (state.2.applyEntityLifecycleAfterInsert entry.entity.id).2) : EntityLifecycleChanges × ManagerState F)) state).2 := by
  induction entries generalizing state with
  | nil => exact ⟨rfl, rfl, rfl⟩
  | cons entry rest ih =>
    rw [List.foldl_cons]
    apply SameChunks.trans _ (ih _)
    exact sameChunks_applyEntityLifecycleAfterInsert state.2 entry.entity.id

end ManagerState
end Foton.Entities

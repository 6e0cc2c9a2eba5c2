import Foton.Entities.World

/-!
# The population of the entity manager

The manager has an entity once: live, retained by a chunk that unloads, or
waiting for a save. Moves, changes of visibility and unloads keep all entities,
and what is retained can always come back.
-/

namespace Foton.Entities

variable {F : Type} [Coordinate F]

/-- The entities that chunks hold. -/
def held (m : AssocList ChunkPos (List (EntityEntry F))) : List SharedEntity :=
  (m.pairs.flatMap Prod.snd).map EntityEntry.entity

theorem held_erase (m : AssocList ChunkPos (List (EntityEntry F))) (chunk : ChunkPos) :
    (held m).Perm (((m.lookup chunk).getD []).map EntityEntry.entity ++ held (m.erase chunk)) := by
  unfold held
  cases hlookup : m.lookup chunk with
  | none =>
    exact ((AssocList.perm_pairs_erase_new hlookup).flatMap_right Prod.snd).map EntityEntry.entity
  | some entries =>
    have hpairs := ((AssocList.perm_pairs_erase hlookup).flatMap_right Prod.snd).map EntityEntry.entity
    rwa [List.flatMap_cons, List.map_append] at hpairs

theorem held_insert (m : AssocList ChunkPos (List (EntityEntry F))) (chunk : ChunkPos) (entries : List (EntityEntry F)) :
    (held (m.insert chunk entries)).Perm (entries.map EntityEntry.entity ++ held (m.erase chunk)) := by
  have hpairs := ((AssocList.perm_pairs_insert (m := m) (k := chunk) (v := entries)).flatMap_right Prod.snd).map
    EntityEntry.entity
  rwa [List.flatMap_cons, List.map_append] at hpairs

theorem held_append (m : AssocList ChunkPos (List (EntityEntry F))) (chunk : ChunkPos) (entries : List (EntityEntry F)) :
    (held (m.insert chunk ((m.lookup chunk).getD [] ++ entries))).Perm (entries.map EntityEntry.entity ++ held m) := by
  apply (held_insert m chunk _).trans
  rw [List.map_append, List.append_assoc]
  apply List.perm_append_comm_assoc _ _ _ |>.trans
  exact (held_erase m chunk).symm.append_left _

namespace ManagerState

/-- Every entity that the manager has: live, retained, or waiting for a save. -/
def population (s : ManagerState F) : List SharedEntity :=
  s.liveById.pairs.map (fun p => p.2.entity) ++ (held s.unloadingByChunk ++ held s.savePendingByChunk)

variable {entities : SharedEntity → EntityData F} {s s' : ManagerState F} {entry : EntityEntry F}

theorem population_congr (hlive : s'.liveById = s.liveById) (hchunks : SameChunks s s') : s'.population = s.population := by
  unfold population
  rw [hlive, hchunks.unloadingByChunk, hchunks.savePendingByChunk]

theorem population_applyChunkVisibilityChange (s : ManagerState F) (chunk : ChunkPos) (previous new : EntityVisibility) :
    (s.applyChunkVisibilityChange chunk previous new).2.population = s.population :=
  population_congr (sameIndexes_applyChunkVisibilityChange s chunk previous new).liveById
    (sameChunks_foldl_changeVisibility previous new (s.entityIdsInChunkOrder chunk) (.none, s))

theorem population_insertLiveEntry (h : s.insertLiveEntry entities entry = some s') :
    s'.population.Perm (entry.entity :: s.population) := by
  obtain ⟨hid, -, -, cells, -, rfl⟩ := insertLiveEntry_eq_some h
  exact ((AssocList.perm_pairs_insert_new hid).map fun p => p.2.entity).append_right _

theorem population_removeLiveEntry {id : Int} (h : s.removeLiveEntry id = some (entry, s')) :
    s.population.Perm (entry.entity :: s'.population) := by
  obtain ⟨hlookup, rfl⟩ := removeLiveEntry_eq_some.mp h
  exact ((AssocList.perm_pairs_erase hlookup).map fun p => p.2.entity).append_right _

theorem population_rewritten {old new : EntityEntry F} (h : Rewritten s s' old new) : s'.population.Perm s.population := by
  have hlive : (s'.liveById.pairs.map fun p => p.2.entity).Perm (s.liveById.pairs.map fun p => p.2.entity) := by
    rw [h.liveById]
    apply (AssocList.perm_pairs_insert.map _).trans
    have hold := (AssocList.perm_pairs_erase h.live).map fun p => p.2.entity
    rw [List.map_cons, h.entity]
    exact hold.symm
  unfold population
  rw [h.unloadingByChunk, h.savePendingByChunk]
  exact hlive.append_right _

/-- An entity joins those of a chunk that wait for a save. -/
theorem population_savePending (s : ManagerState F) (chunk : ChunkPos) (entry : EntityEntry F) :
    (population { s with
      savePendingByChunk := s.savePendingByChunk.insert chunk
        ((s.savePendingByChunk.lookup chunk).getD [] ++ [entry]) }).Perm (entry.entity :: s.population) := by
  unfold population
  have hheld := held_append s.savePendingByChunk chunk [entry]
  have hmoved := ((hheld.append_left (held s.unloadingByChunk)).trans List.perm_middle).append_left
    (s.liveById.pairs.map fun p => p.2.entity)
  exact hmoved.trans List.perm_middle

/-- An entity that a chunk held comes back, waits for its save, or is gone for good. -/
theorem population_restore {chunk : ChunkPos} {state state' : ChunkEntityLoadResult × ManagerState F}
    (h : restore entities chunk state entry = some state') :
    state'.2.population.Subperm (entry.entity :: state.2.population) := by
  unfold restore at h
  split at h
  · split at h
    · cases h
      exact (population_savePending state.2 chunk entry).subperm
    · cases h
      exact (List.sublist_cons_self _ _).subperm
  · obtain ⟨s₁, hinsert, h⟩ := Option.bind_eq_some_iff.mp h
    cases h
    have hsame := population_congr (sameIndexes_applyEntityLifecycleAfterInsert s₁ entry.entity.id).liveById
      (sameChunks_applyEntityLifecycleAfterInsert s₁ entry.entity.id)
    exact ((List.Perm.of_eq hsame).trans (population_insertLiveEntry hinsert)).subperm

/-- What a chunk retains leaves it when the chunk is loaded. -/
theorem population_loadStart (s : ManagerState F) (chunk : ChunkPos) (visible : AssocList ChunkPos EntityVisibility) :
    (((s.unloadingByChunk.lookup chunk).getD []).map EntityEntry.entity ++ population { s with
      chunkVisibility := visible
      inboundChunks := s.inboundChunks.erase chunk
      unloadingByChunk := s.unloadingByChunk.erase chunk }).Perm s.population := by
  unfold population
  dsimp only
  have hheld := ((held_erase s.unloadingByChunk chunk).append_right (held s.savePendingByChunk)).append_left
    (s.liveById.pairs.map fun p => p.2.entity)
  apply List.Perm.trans _ hheld.symm
  rw [List.append_assoc]
  exact List.perm_append_comm_assoc _ _ _

theorem population_onChunkLoaded {chunk : ChunkPos} {result : ChunkEntityLoadResult}
    (h : s.onChunkLoaded entities chunk = some (result, s')) : s'.population.Subperm s.population := by
  have hfold : ∀ (entries : List (EntityEntry F)) (state state' : ChunkEntityLoadResult × ManagerState F),
      entries.foldlM (restore entities chunk) state = some state' →
      state'.2.population.Subperm (entries.map EntityEntry.entity ++ state.2.population) := by
    intro entries
    induction entries with
    | nil =>
      rintro state state' ⟨⟩
      exact List.Subperm.refl _
    | cons entry rest ih =>
      intro state state' hrun
      rw [List.foldlM_cons] at hrun
      obtain ⟨next, hnext, hrun⟩ := Option.bind_eq_some_iff.mp hrun
      apply (ih next state' hrun).trans
      apply ((List.subperm_append_left _).mpr (population_restore hnext)).trans
      exact List.perm_middle.subperm
  unfold onChunkLoaded at h
  exact (hfold _ _ _ h).trans (population_loadStart s chunk _).subperm

/-- A retention moves entities from the live ones to the retained. -/
theorem population_retainOne {r r' : Retention F} {id : Int} {passengers : List Int}
    (h : retainOne entities r id = some (r', passengers)) :
    (r'.retained.map EntityEntry.entity ++ r'.state.population).Perm
      (r.retained.map EntityEntry.entity ++ r.state.population) := by
  unfold retainOne at h
  split at h
  · cases h
    exact List.Perm.refl _
  · split at h
    · cases h
      exact List.Perm.refl _
    · rename_i entry removed hremove
      have hremoved := population_removeLiveEntry hremove
      split at h
      · obtain ⟨s₁, hinsert, h⟩ := Option.bind_eq_some_iff.mp h
        cases h
        apply List.Perm.append_left
        apply List.Perm.trans _ hremoved.symm
        have hinserted := population_insertLiveEntry hinsert
        dsimp only
        split
        · exact hinserted
        · exact hinserted
      · cases h
        rw [List.map_append, List.append_assoc]
        exact hremoved.symm.append_left _

theorem population_beginChunkUnload {chunk : ChunkPos} {start : ChunkEntityUnloadStart}
    (h : s.beginChunkUnload entities chunk = some (start, s')) : s'.population.Perm s.population := by
  unfold beginChunkUnload at h
  obtain ⟨r, hretain, h⟩ := Option.bind_eq_some_iff.mp h
  cases h
  have hchanged := population_applyChunkVisibilityChange { s with chunkVisibility := s.chunkVisibility.erase chunk } chunk
    (s.chunkVisibilityAt chunk) .hidden
  have hretained : (r.retained.map EntityEntry.entity ++ r.state.population).Perm s.population := by
    refine retainTrees_invariant
      (P := fun r => (r.retained.map EntityEntry.entity ++ r.state.population).Perm s.population) ?_ ?_ hretain
    · intro r id r' passengers hr hone
      exact (population_retainOne hone).trans hr
    · exact List.Perm.of_eq hchanged
  split
  · rename_i hempty
    rw [List.isEmpty_iff.mp hempty] at hretained
    exact hretained
  · apply List.Perm.trans _ hretained
    have hheld := ((held_append r.state.unloadingByChunk chunk r.retained).append_right
      (held r.state.savePendingByChunk)).append_left (r.state.liveById.pairs.map fun p => p.2.entity)
    unfold population
    apply hheld.trans
    rw [List.append_assoc]
    exact List.perm_append_comm_assoc _ _ _

theorem population_removeLiveEntity {id : Int} {reason : RemovalReason} :
    (s.removeLiveEntity entities id reason).2.population.Subperm s.population := by
  unfold removeLiveEntity
  split
  · exact List.Subperm.refl _
  · rename_i entry s₁ hremove
    have hremoved := population_removeLiveEntry hremove
    dsimp only
    split
    · exact ((population_savePending s₁ entry.chunk entry).trans hremoved.symm).subperm
    · exact (List.sublist_cons_self _ _).subperm.trans hremoved.symm.subperm

theorem population_finalizeChunkUnload {chunk : ChunkPos} :
    (s.finalizeChunkUnload chunk).2.population.Subperm s.population := by
  unfold population finalizeChunkUnload
  apply (List.subperm_append_left _).mpr
  apply (List.subperm_append_right _).mpr
  exact (List.sublist_append_right _ _).subperm.trans (held_erase s.unloadingByChunk chunk).symm.subperm

theorem population_onChunkSaved {chunk : ChunkPos} {ids : List Int} :
    (s.onChunkSaved chunk ids).population.Subperm s.population := by
  unfold onChunkSaved
  split
  · exact List.Subperm.refl _
  · split
    · exact List.Subperm.refl _
    · rename_i entries hlookup
      have hheld := held_erase s.savePendingByChunk chunk
      rw [hlookup] at hheld
      unfold population
      dsimp only
      split
      · apply (List.subperm_append_left _).mpr
        apply (List.subperm_append_left _).mpr
        exact (List.sublist_append_right _ _).subperm.trans hheld.symm.subperm
      · apply (List.subperm_append_left _).mpr
        apply (List.subperm_append_left _).mpr
        apply (held_insert s.savePendingByChunk chunk _).subperm.trans
        apply List.Subperm.trans _ hheld.symm.subperm
        exact (List.subperm_append_right _).mpr (List.filter_sublist.map _).subperm

/-! ## No entity twice -/

structure Unique (s : ManagerState F) : Prop where
  ids : (s.population.map SharedEntity.id).Nodup
  uuids : (s.population.map SharedEntity.uuid).Nodup

theorem nodup_map_of_subperm {A B : Type} {f : A → B} {l l' : List A} (h : l'.Subperm l) (hl : (l.map f).Nodup) :
    (l'.map f).Nodup := by
  obtain ⟨l₁, hperm, hsub⟩ := h
  exact (hperm.map f).nodup_iff.mp ((hsub.map f).nodup hl)

theorem Unique.subperm (h : s.Unique) (hs : s'.population.Subperm s.population) : s'.Unique :=
  ⟨nodup_map_of_subperm hs h.ids, nodup_map_of_subperm hs h.uuids⟩

theorem map_keptEntries (s : ManagerState F) :
    s.keptEntries.map EntityEntry.entity = held s.unloadingByChunk ++ held s.savePendingByChunk := List.map_append

theorem mem_population (h : s.Indexed) {entity : SharedEntity} : entity ∈ s.population ↔
    (∃ entry, s.liveById.lookup entity.id = some entry ∧ entry.entity = entity) ∨
      ∃ entry ∈ s.keptEntries, entry.entity = entity := by
  unfold population
  rw [← map_keptEntries, List.mem_append, List.mem_map, List.mem_map]
  apply or_congr_left
  constructor
  · rintro ⟨⟨id, entry⟩, hpair, rfl⟩
    have hlookup := AssocList.mem_pairs.mp hpair
    exact ⟨entry, by rw [h.ids id entry hlookup]; exact hlookup, rfl⟩
  · rintro ⟨entry, hlookup, rfl⟩
    exact ⟨(entry.entity.id, entry), AssocList.mem_pairs.mpr hlookup, rfl⟩

theorem id_ne_of_containsId (h : s.Indexed) {id : Int} (hid : s.containsId id = false) :
    id ∉ s.population.map SharedEntity.id := by
  intro hmem
  obtain ⟨entity, hentity, rfl⟩ := List.mem_map.mp hmem
  unfold containsId at hid
  rw [Bool.or_eq_false_iff] at hid
  rcases (mem_population h).mp hentity with ⟨entry, hlookup, -⟩ | ⟨entry, hkept, rfl⟩
  · rw [hlookup] at hid
    cases hid.1
  · exact List.any_eq_false.mp hid.2 entry hkept (decide_eq_true rfl)

theorem uuid_ne_of_containsUuid (h : s.Indexed) {uuid : Nat} (huuid : s.containsUuid uuid = false) :
    uuid ∉ s.population.map SharedEntity.uuid := by
  intro hmem
  obtain ⟨entity, hentity, rfl⟩ := List.mem_map.mp hmem
  unfold containsUuid at huuid
  rw [Bool.or_eq_false_iff] at huuid
  rcases (mem_population h).mp hentity with ⟨entry, hlookup, rfl⟩ | ⟨entry, hkept, rfl⟩
  · have hlive := (h.uuids entry.entity.uuid _).mpr ⟨entry, hlookup, rfl⟩
    rw [hlive] at huuid
    cases huuid.1
  · exact List.any_eq_false.mp huuid.2 entry hkept (decide_eq_true rfl)

theorem validateLiveEntries_eq_ok {ownership : EntityOwnership} {loaded : Bool} {entries : List (EntityEntry F)}
    (h : s.validateLiveEntries ownership loaded entries = some (.ok ())) :
    ∀ entry ∈ entries, s.containsId entry.entity.id = false ∧ s.containsUuid entry.uuid = false := by
  induction entries with
  | nil => exact fun _ hentry => absurd hentry List.not_mem_nil
  | cons entry rest ih =>
    unfold validateLiveEntries at h
    split at h
    · cases h
    · rename_i hid
      split at h
      · cases h
      · rename_i huuid
        split at h
        · cases h
        · intro e he
          rcases List.mem_cons.mp he with rfl | he
          · exact ⟨Bool.not_eq_true _ ▸ hid, Bool.not_eq_true _ ▸ huuid⟩
          · exact ih h e he

theorem validateTree_eq_ok {entries : List (EntityEntry F)} {uuids : List Nat} {ids : List Int}
    (h : validateTree entries uuids ids = some (.ok ())) :
    ((entries.map fun entry => entry.entity.id).Nodup ∧ ∀ entry ∈ entries, entry.entity.id ∉ ids) ∧
      (entries.map EntityEntry.uuid).Nodup ∧ ∀ entry ∈ entries, entry.uuid ∉ uuids := by
  induction entries generalizing uuids ids with
  | nil => simp
  | cons entry rest ih =>
    unfold validateTree at h
    split at h
    · cases h
    · rename_i hid
      split at h
      · cases h
      · rename_i huuid
        obtain ⟨⟨hids, hnew⟩, huuids, hnew'⟩ := ih h
        simp only [List.mem_cons, not_or] at hnew hnew'
        refine ⟨⟨?_, ?_⟩, ?_, ?_⟩
        · rw [List.map_cons, List.nodup_cons, List.mem_map]
          exact ⟨fun ⟨e, he, heq⟩ => (hnew e he).1 heq, hids⟩
        · simp only [List.mem_cons, forall_eq_or_imp]
          exact ⟨hid, fun e he => (hnew e he).2⟩
        · rw [List.map_cons, List.nodup_cons, List.mem_map]
          exact ⟨fun ⟨e, he, heq⟩ => (hnew' e he).1 heq, huuids⟩
        · simp only [List.mem_cons, forall_eq_or_imp]
          exact ⟨huuid, fun e he => (hnew' e he).2⟩

theorem population_foldlM_insertLiveEntry {entries : List (EntityEntry F)}
    (h : entries.foldlM (fun s entry => insertLiveEntry entities s entry) s = some s') :
    s'.population.Perm (entries.map EntityEntry.entity ++ s.population) := by
  induction entries generalizing s with
  | nil =>
    cases h
    exact List.Perm.refl _
  | cons entry rest ih =>
    rw [List.foldlM_cons] at h
    obtain ⟨s₁, hinsert, h⟩ := Option.bind_eq_some_iff.mp h
    exact (ih h).trans (((population_insertLiveEntry hinsert).append_left _).trans List.perm_middle)

/-- Entities that are known by no id and by no UUID, and are told apart by both, join. -/
theorem Unique.joined (h : s.Unique) (hindexed : s.Indexed) {entries : List (EntityEntry F)}
    (hnew : ∀ entry ∈ entries, s.containsId entry.entity.id = false ∧ s.containsUuid entry.uuid = false)
    (hids : (entries.map fun entry => entry.entity.id).Nodup) (huuids : (entries.map EntityEntry.uuid).Nodup)
    (hs : s'.population.Perm (entries.map EntityEntry.entity ++ s.population)) : s'.Unique := by
  constructor
  · rw [(hs.map SharedEntity.id).nodup_iff, List.map_append, List.map_map]
    refine List.nodup_append'.mpr ⟨hids, h.ids, ?_⟩
    intro id hid hold
    obtain ⟨entry, hentry, rfl⟩ := List.mem_map.mp hid
    exact id_ne_of_containsId hindexed (hnew entry hentry).1 hold
  · rw [(hs.map SharedEntity.uuid).nodup_iff, List.map_append, List.map_map]
    refine List.nodup_append'.mpr ⟨huuids, h.uuids, ?_⟩
    intro uuid huuid hold
    obtain ⟨entry, hentry, rfl⟩ := List.mem_map.mp huuid
    exact uuid_ne_of_containsUuid hindexed (hnew entry hentry).2 hold

theorem Unique.addLiveEntity {entity : SharedEntity} {ownership : EntityOwnership}
    {result : Except AddEntityError EntityLifecycleChanges} (h : s.Unique) (hindexed : s.Indexed)
    (ha : s.addLiveEntity entities entity ownership = some (result, s')) : s'.Unique := by
  unfold ManagerState.addLiveEntity at ha
  split at ha
  · cases ha
    exact h
  · rename_i entry hentry
    split at ha
    · cases ha
    · cases ha
      exact h
    · rename_i hvalid
      obtain ⟨s₁, hinsert, ha⟩ := Option.bind_eq_some_iff.mp ha
      cases ha
      have hsame := population_congr (sameIndexes_applyEntityLifecycleAfterInsert s₁ entity.id).liveById
        (sameChunks_applyEntityLifecycleAfterInsert s₁ entity.id)
      exact h.joined hindexed (validateLiveEntries_eq_ok hvalid) (List.nodup_singleton _) (List.nodup_singleton _)
        ((List.Perm.of_eq hsame).trans (population_insertLiveEntry hinsert))

theorem Unique.addLiveEntityTree {tree : List SharedEntity} {ownership : EntityOwnership}
    {result : Except AddEntityError EntityLifecycleChanges} (h : s.Unique) (hindexed : s.Indexed)
    (ha : s.addLiveEntityTree entities tree ownership = some (result, s')) : s'.Unique := by
  unfold ManagerState.addLiveEntityTree at ha
  split at ha
  · cases ha
    exact h
  · rename_i entries _
    split at ha
    · cases ha
    · cases ha
      exact h
    · cases ha
    · cases ha
      exact h
    · rename_i htree hvalid
      obtain ⟨s₁, hinsert, ha⟩ := Option.bind_eq_some_iff.mp ha
      cases ha
      obtain ⟨⟨hids, -⟩, huuids, -⟩ := validateTree_eq_ok htree
      have hsame := population_congr (sameIndexes_lifecycles entries (.none, s₁)).liveById
        (sameChunks_lifecycles entries (.none, s₁))
      exact h.joined hindexed (validateLiveEntries_eq_ok hvalid) hids huuids
        ((List.Perm.of_eq hsame).trans (population_foldlM_insertLiveEntry hinsert))

end ManagerState

/-- The operations that neither add nor let go of entities. -/
def Operation.keeps : Operation F → Bool
  | .commitMove .. | .commitBoundingBoxChange .. | .updateChunkVisibility .. => true
  | .reserveInboundChunk .. | .releaseInboundChunk .. | .beginChunkUnload .. => true
  | _ => false

/-- The operations that add entities. -/
def Operation.adds : Operation F → Bool
  | .addLiveEntity .. | .addLiveEntityTree .. => true
  | _ => false

namespace ManagerState

variable {entities : SharedEntity → EntityData F} {s s' : ManagerState F} {entry : EntityEntry F} {op : Operation F}

theorem population_keeps (h : s.Indexed) (hop : op.keeps = true) (he : s.exec entities op = some s') :
    s'.population.Perm s.population := by
  cases op with
  | commitMove id newPos =>
    obtain ⟨⟨result, s₁⟩, hc, rfl⟩ := Option.map_eq_some_iff.mp he
    rcases commitMove_cases h hc with rfl | ⟨old, new, hr, -⟩
    · exact List.Perm.refl _
    · exact population_rewritten hr
  | commitBoundingBoxChange id =>
    rcases commitBoundingBoxChange_cases h he with rfl | ⟨old, new, hr, -⟩
    · exact List.Perm.refl _
    · exact population_rewritten hr
  | updateChunkVisibility chunk visibility =>
    cases he
    unfold updateChunkVisibility
    dsimp only
    split
    · exact List.Perm.refl _
    · exact List.Perm.of_eq (population_applyChunkVisibilityChange _ _ _ _)
  | reserveInboundChunk chunk =>
    cases he
    exact List.Perm.refl _
  | releaseInboundChunk chunk =>
    cases he
    unfold releaseInboundChunk
    split
    · exact List.Perm.refl _
    · split
      · exact List.Perm.refl _
      · exact List.Perm.refl _
  | beginChunkUnload chunk =>
    obtain ⟨⟨start, s₁⟩, hb, rfl⟩ := Option.map_eq_some_iff.mp he
    exact population_beginChunkUnload hb
  | addLiveEntity | addLiveEntityTree | removeLiveEntity | onChunkLoaded | finalizeChunkUnload | onChunkSaved => cases hop

theorem population_lets_go (h : s.Indexed) (hop : op.adds = false) (he : s.exec entities op = some s') :
    s'.population.Subperm s.population := by
  by_cases hkeeps : op.keeps = true
  · exact (population_keeps h hkeeps he).subperm
  · cases op with
    | removeLiveEntity id reason =>
      cases he
      exact population_removeLiveEntity
    | onChunkLoaded chunk =>
      obtain ⟨⟨result, s₁⟩, hl, rfl⟩ := Option.map_eq_some_iff.mp he
      exact population_onChunkLoaded hl
    | finalizeChunkUnload chunk =>
      cases he
      exact population_finalizeChunkUnload
    | onChunkSaved chunk ids =>
      cases he
      exact population_onChunkSaved
    | addLiveEntity | addLiveEntityTree => cases hop
    | commitMove | commitBoundingBoxChange | updateChunkVisibility | reserveInboundChunk | releaseInboundChunk
      | beginChunkUnload => exact absurd rfl hkeeps

theorem Unique.exec (h : s.Unique) (hindexed : s.Indexed) (he : s.exec entities op = some s') : s'.Unique := by
  by_cases hop : op.adds = true
  · cases op with
    | addLiveEntity entity ownership =>
      obtain ⟨⟨result, s₁⟩, ha, rfl⟩ := Option.map_eq_some_iff.mp he
      exact h.addLiveEntity hindexed ha
    | addLiveEntityTree tree ownership =>
      obtain ⟨⟨result, s₁⟩, ha, rfl⟩ := Option.map_eq_some_iff.mp he
      exact h.addLiveEntityTree hindexed ha
    | removeLiveEntity | commitMove | commitBoundingBoxChange | updateChunkVisibility | reserveInboundChunk
      | releaseInboundChunk | onChunkLoaded | beginChunkUnload | finalizeChunkUnload | onChunkSaved => cases hop
  · exact h.subperm (population_lets_go hindexed (Bool.not_eq_true _ ▸ hop) he)

theorem unique_run {steps : List ((SharedEntity → EntityData F) × Operation F)} (hr : new.run steps = some s) :
    s.Indexed ∧ s.Unique :=
  foldlM_invariant (P := fun s : ManagerState F => s.Indexed ∧ s.Unique)
    (fun _ _ _ _ hs he => ⟨hs.1.exec he, hs.2.exec hs.1 he⟩) ⟨indexed_new, List.nodup_nil, List.nodup_nil⟩ hr

/-- In every state of a run no two entities, live, retained or waiting for a save, share an id or a UUID; and
an operation after it that is about moves, visibility or the unload of a chunk keeps them all. -/
theorem population_run {steps : List ((SharedEntity → EntityData F) × Operation F)} (hr : new.run steps = some s) :
    (s.population.map SharedEntity.id).Nodup ∧ (s.population.map SharedEntity.uuid).Nodup ∧
      ∀ entities op s', s.exec entities op = some s' →
        (op.adds = false → s'.population.Subperm s.population) ∧ (op.keeps = true → s'.population.Perm s.population) := by
  have h := unique_run hr
  refine ⟨h.2.ids, h.2.uuids, ?_⟩
  intro entities op s' he
  exact ⟨fun hop => population_lets_go h.1 hop he, fun hop => population_keeps h.1 hop he⟩

theorem population_run_zombie : zombieState.population = [zombie] ∧ (zombieState.population.map SharedEntity.id).Nodup :=
  ⟨rfl, (population_run run_zombieSteps).1⟩

/-! ## No assertion fails -/

theorem Indexed.canInsert (entities : SharedEntity → EntityData F) (h : s.Indexed)
    (hid : entry.entity.id ∉ s.population.map SharedEntity.id)
    (huuid : entry.uuid ∉ s.population.map SharedEntity.uuid) (horder : s.nextSectionOrder < 2 ^ 64 - 1) :
    (s.insertLiveEntry entities entry).isSome := by
  have hmem : ∀ id e, s.liveById.lookup id = some e → e.entity ∈ s.population := by
    intro id e he
    exact (mem_population h).mpr (Or.inl ⟨e, by rw [h.ids id e he]; exact he, rfl⟩)
  apply h.insertLiveEntry_isSome _ _ horder
  · by_contra hlive
    obtain ⟨e, he⟩ := Option.ne_none_iff_exists'.mp hlive
    exact hid (List.mem_map.mpr ⟨e.entity, hmem _ e he, h.ids _ e he⟩)
  · by_contra hlive
    obtain ⟨id, hlookup⟩ := Option.ne_none_iff_exists'.mp hlive
    obtain ⟨e, he, heq⟩ := (h.uuids _ _).mp hlookup
    exact huuid (List.mem_map.mpr ⟨e.entity, hmem _ e he, heq⟩)

theorem nextSectionOrder_insertLiveEntry (h : s.insertLiveEntry entities entry = some s') :
    s'.nextSectionOrder = s.nextSectionOrder + 1 := by
  obtain ⟨-, -, -, cells, -, rfl⟩ := insertLiveEntry_eq_some h
  rfl

theorem restore_isSome (entities : SharedEntity → EntityData F) (chunk : ChunkPos)
    {state : ChunkEntityLoadResult × ManagerState F} (h : state.2.Indexed)
    (hid : entry.entity.id ∉ state.2.population.map SharedEntity.id)
    (huuid : entry.uuid ∉ state.2.population.map SharedEntity.uuid) (horder : state.2.nextSectionOrder < 2 ^ 64 - 1) :
    ∃ state', restore entities chunk state entry = some state' ∧
      state'.2.nextSectionOrder ≤ state.2.nextSectionOrder + 1 := by
  unfold restore
  split
  · split
    · exact ⟨_, rfl, Nat.le_succ _⟩
    · exact ⟨_, rfl, Nat.le_succ _⟩
  · obtain ⟨s₁, hinsert⟩ := Option.isSome_iff_exists.mp (h.canInsert entities hid huuid horder)
    refine ⟨_, by rw [hinsert]; rfl, ?_⟩
    have hnext := (sameIndexes_applyEntityLifecycleAfterInsert s₁ entry.entity.id).nextSectionOrder
    exact (hnext.trans (nextSectionOrder_insertLiveEntry hinsert)).le

/-- What a chunk retains can come back. -/
theorem restores_isSome {chunk : ChunkPos} {entries : List (EntityEntry F)} {state : ChunkEntityLoadResult × ManagerState F}
    (h : state.2.Indexed) (hids : ((entries.map EntityEntry.entity ++ state.2.population).map SharedEntity.id).Nodup)
    (huuids : ((entries.map EntityEntry.entity ++ state.2.population).map SharedEntity.uuid).Nodup)
    (horder : state.2.nextSectionOrder + entries.length < 2 ^ 64) :
    (entries.foldlM (restore entities chunk) state).isSome := by
  induction entries generalizing state with
  | nil => rfl
  | cons entry rest ih =>
    rw [List.length_cons] at horder
    have hid := hids
    have huuid := huuids
    rw [List.map_cons, List.cons_append, List.map_cons, List.nodup_cons, List.map_append, List.mem_append, not_or] at hid huuid
    obtain ⟨state', hrestore, hnext⟩ := restore_isSome entities chunk h hid.1.2 huuid.1.2 (by omega)
    have hsub : (rest.map EntityEntry.entity ++ state'.2.population).Subperm
        ((entry :: rest).map EntityEntry.entity ++ state.2.population) :=
      ((List.subperm_append_left _).mpr (population_restore hrestore)).trans List.perm_middle.subperm
    rw [List.foldlM_cons, hrestore]
    exact ih (h.restore hrestore) (nodup_map_of_subperm hsub hids) (nodup_map_of_subperm hsub huuids) (by omega)

/-- The live entities that a retention has not visited. -/
def Retention.left (r : Retention F) : Nat := (r.state.liveById.keys.toFinset \ r.visited.toFinset).card

theorem Retention.mem_left {r : Retention F} {id : Int} : id ∈ r.state.liveById.keys.toFinset \ r.visited.toFinset ↔
    (r.state.liveById.lookup id).isSome ∧ id ∉ r.visited := by
  rw [Finset.mem_sdiff, List.mem_toFinset, List.mem_toFinset, ← AList.mem_keys, AList.lookup_isSome]

theorem Retention.left_lt (r r' : Retention F) {id : Int} (hlive : (r.state.liveById.lookup id).isSome) (hid : id ∉ r.visited)
    (hvisited : r'.visited = id :: r.visited)
    (hless : ∀ i, i ≠ id → (r'.state.liveById.lookup i).isSome → (r.state.liveById.lookup i).isSome) :
    Retention.left r' < Retention.left r := by
  apply Finset.card_lt_card
  rw [Finset.ssubset_iff_of_subset]
  · exact ⟨id, Retention.mem_left.mpr ⟨hlive, hid⟩, fun hmem => (Retention.mem_left.mp hmem).2 (by simp [hvisited])⟩
  · intro i hi
    obtain ⟨hlive', hi'⟩ := Retention.mem_left.mp hi
    rw [hvisited, List.mem_cons, not_or] at hi'
    exact Retention.mem_left.mpr ⟨hless i hi'.1 hlive', hi'.2⟩

theorem ticking_after (s : ManagerState F) (entry : EntityEntry F) :
    (if s.ticks entry then { s with tickList := (s.tickList.insert entry.entity.id).1 } else s).liveById = s.liveById ∧
      (if s.ticks entry then { s with tickList := (s.tickList.insert entry.entity.id).1 } else s).nextSectionOrder =
        s.nextSectionOrder := by
  split
  · exact ⟨rfl, rfl⟩
  · exact ⟨rfl, rfl⟩

/-- Each step of a retention succeeds, and an order that it uses up is that of an entity visited. -/
theorem retainOne_isSome (entities : SharedEntity → EntityData F) (id : Int) {r : Retention F} (h : r.state.Indexed)
    (horder : r.state.nextSectionOrder + Retention.left r < 2 ^ 64) :
    ∃ r' passengers, retainOne entities r id = some (r', passengers) ∧
      r'.state.nextSectionOrder + Retention.left r' ≤ r.state.nextSectionOrder + Retention.left r := by
  unfold retainOne
  split
  · exact ⟨_, _, rfl, le_rfl⟩
  · rename_i hid
    cases hremove : r.state.removeLiveEntry id with
    | none =>
      refine ⟨_, _, rfl, Nat.add_le_add_left (Finset.card_le_card ?_) _⟩
      exact Finset.sdiff_subset_sdiff subset_rfl fun i hi => List.mem_toFinset.mpr
        (List.mem_cons_of_mem _ (List.mem_toFinset.mp hi))
    | some found =>
      obtain ⟨entry, removed⟩ := found
      have hindexed := h.removeLiveEntry hremove
      obtain ⟨hlookup, hremoved⟩ := removeLiveEntry_eq_some.mp hremove
      obtain rfl := h.ids id entry hlookup
      have hlive : (r.state.liveById.lookup entry.entity.id).isSome := by rw [hlookup]; rfl
      have hless : ∀ i, (removed.liveById.lookup i).isSome → (r.state.liveById.lookup i).isSome := by
        intro i hi
        rw [hremoved] at hi
        dsimp only at hi
        rw [AssocList.lookup_erase] at hi
        split at hi
        · cases hi
        · exact hi
      have hnext : removed.nextSectionOrder = r.state.nextSectionOrder := by rw [hremoved]
      have hsome : 0 < Retention.left r := Finset.card_pos.mpr ⟨_, Retention.mem_left.mpr ⟨hlive, hid⟩⟩
      dsimp only
      split
      · have hinsert : (removed.insertLiveEntry entities entry).isSome := by
          apply hindexed.insertLiveEntry_isSome
          · rw [hremoved]
            dsimp only
            rw [AssocList.lookup_erase, if_pos rfl]
          · rw [hremoved]
            dsimp only
            rw [AssocList.lookup_erase, if_pos rfl]
          · omega
        obtain ⟨s₁, hinsert⟩ := Option.isSome_iff_exists.mp hinsert
        refine ⟨_, _, by rw [hinsert]; rfl, ?_⟩
        have horders := nextSectionOrder_insertLiveEntry hinsert
        obtain ⟨-, -, -, cells, -, hs₁⟩ := insertLiveEntry_eq_some hinsert
        have hlt := Retention.left_lt r { r with
          state := if s₁.ticks entry then { s₁ with tickList := (s₁.tickList.insert entry.entity.id).1 } else s₁
          visited := entry.entity.id :: r.visited } hlive hid rfl fun i hi hlive' => by
            rw [(ticking_after s₁ entry).1, hs₁] at hlive'
            dsimp only at hlive'
            rw [AssocList.lookup_insert, if_neg hi] at hlive'
            exact hless i hlive'
        dsimp only at hlt ⊢
        rw [(ticking_after s₁ entry).2]
        omega
      · refine ⟨_, _, rfl, ?_⟩
        have hlt := Retention.left_lt r {
          state := removed
          visited := entry.entity.id :: r.visited
          retained := r.retained ++ [entry]
          trackingStopped := pushUnique r.trackingStopped entry.entity } hlive hid rfl fun i _ => hless i
        dsimp only at hlt ⊢
        omega

theorem retainTrees_isSome {r : Retention F} {pending : List Int} (h : r.state.Indexed)
    (horder : r.state.nextSectionOrder + Retention.left r < 2 ^ 64) : (retainTrees entities r pending).isSome := by
  induction r, pending using retainTrees.induct entities with
  | case1 r =>
    rw [retainTrees]
    rfl
  | case2 r id rest hone =>
    obtain ⟨r', passengers, hsome, -⟩ := retainOne_isSome entities id h horder
    rw [hone] at hsome
    cases hsome
  | case3 r id rest r₁ passengers hone ih =>
    obtain ⟨r', passengers', hsome, hle⟩ := retainOne_isSome entities id h horder
    rw [hone] at hsome
    cases hsome
    rw [retainTrees, hone]
    exact ih (h.retainOne hone) (lt_of_le_of_lt hle horder)

theorem Retention.left_le (r : Retention F) : Retention.left r ≤ r.state.liveById.keys.length :=
  (Finset.card_le_card Finset.sdiff_subset).trans (List.toFinset_card_le _)

theorem isSome_bind {A B : Type} {x : Option A} {f : A → Option B} (hx : x.isSome) (hf : ∀ a, x = some a → (f a).isSome) :
    (x >>= f).isSome := by
  obtain ⟨a, rfl⟩ := Option.isSome_iff_exists.mp hx
  exact hf a rfl

theorem length_keys_le (s : ManagerState F) : s.liveById.keys.length ≤ s.population.length := by
  have hkeys : s.liveById.keys.length = (s.liveById.pairs.map fun p => p.2.entity).length := by
    simp [AssocList.pairs, AList.keys, List.keys]
  unfold population
  rw [hkeys, List.length_append]
  exact Nat.le_add_right _ _

/-- While orders are left for the whole population, only an addition can panic. -/
theorem exec_isSome (h : s.Indexed) (hunique : s.Unique) (horder : s.nextSectionOrder + s.population.length < 2 ^ 64)
    (hop : op.adds = false) : (s.exec entities op).isSome := by
  have hlive : ∀ id e, s.liveById.lookup id = some e → 0 < s.population.length := by
    intro id e he
    apply List.length_pos_of_mem (a := e.entity)
    exact (mem_population h).mpr (Or.inl ⟨e, by rw [h.ids id e he]; exact he, rfl⟩)
  cases op with
  | addLiveEntity | addLiveEntityTree => cases hop
  | removeLiveEntity | updateChunkVisibility | reserveInboundChunk | releaseInboundChunk | finalizeChunkUnload
    | onChunkSaved => rfl
  | commitMove id newPos =>
    change ((s.commitMove entities id newPos).map Prod.snd).isSome
    rw [Option.isSome_map]
    unfold commitMove
    split
    · rfl
    · rename_i current hlookup
      obtain rfl := h.ids id current hlookup
      dsimp only
      split
      · rfl
      · split
        · rfl
        · have hnext : (s.sectionOrderAt current (SectionPos.fromEntityPos newPos)).isSome := by
            have hsome := hlive _ current hlookup
            unfold sectionOrderAt nextSectionOrder?
            split
            · rfl
            · rw [if_pos (by omega)]
              rfl
          obtain ⟨⟨order, s₁⟩, hnext⟩ := Option.isSome_iff_exists.mp hnext
          obtain ⟨hindexed, hnew⟩ := h.replaces_sectionOrderAt hlookup (entities current.entity).boundingBox hnext
          obtain ⟨s₂, hre, -⟩ := hindexed.reindex hnew
          refine isSome_bind (by rw [hnext]; rfl) fun p hp => isSome_bind ?_ fun _ _ => rfl
          rw [hnext] at hp
          cases hp
          rw [hre]
          rfl
  | commitBoundingBoxChange id =>
    change (s.commitBoundingBoxChange entities id).isSome
    unfold commitBoundingBoxChange
    split
    · rfl
    · rename_i current hlookup
      obtain rfl := h.ids id current hlookup
      dsimp only
      split
      · rfl
      · obtain ⟨s₁, hre, -⟩ := h.reindex (h.replaces_boundingBox hlookup (entities current.entity).boundingBox)
        rw [hre]
        rfl
  | onChunkLoaded chunk =>
    change ((s.onChunkLoaded entities chunk).map Prod.snd).isSome
    rw [Option.isSome_map]
    unfold onChunkLoaded
    have hstart := population_loadStart s chunk
      (if (s.chunkVisibility.lookup chunk).isSome then s.chunkVisibility else s.chunkVisibility.insert chunk .hidden)
    apply restores_isSome (h.same ⟨rfl, rfl, rfl, rfl, rfl⟩)
    · exact (hstart.map SharedEntity.id).nodup_iff.mpr hunique.ids
    · exact (hstart.map SharedEntity.uuid).nodup_iff.mpr hunique.uuids
    · have hlength := hstart.length_eq
      rw [List.length_append, List.length_map] at hlength
      dsimp only
      omega
  | beginChunkUnload chunk =>
    change ((s.beginChunkUnload entities chunk).map Prod.snd).isSome
    rw [Option.isSome_map]
    unfold beginChunkUnload
    have hsame := sameIndexes_applyChunkVisibilityChange { s with chunkVisibility := s.chunkVisibility.erase chunk } chunk
      (s.chunkVisibilityAt chunk) .hidden
    refine isSome_bind (retainTrees_isSome ?_ ?_) fun r _ => rfl
    · apply Indexed.same _ hsame
      exact h.same ⟨rfl, rfl, rfl, rfl, rfl⟩
    · refine lt_of_le_of_lt (Nat.add_le_add hsame.nextSectionOrder.le ((Retention.left_le _).trans ?_)) horder
      exact (congrArg (fun live => live.keys.length) hsame.liveById).le.trans (length_keys_le s)

/-- In every state of a run, while orders are left for the whole population, only an addition can panic. -/
theorem exec_succeeds {steps : List ((SharedEntity → EntityData F) × Operation F)} (hr : new.run steps = some s)
    (horder : s.nextSectionOrder + s.population.length < 2 ^ 64) (entities : SharedEntity → EntityData F) (op : Operation F)
    (hop : op.adds = false) : (s.exec entities op).isSome := by
  obtain ⟨hindexed, hunique⟩ := unique_run hr
  exact exec_isSome hindexed hunique horder hop

theorem exec_succeeds_zombie : (zombieState.exec (fun _ => zombieData) (.beginChunkUnload ⟨0, 0⟩)).isSome :=
  exec_succeeds run_zombieSteps (by decide) (fun _ => zombieData) (.beginChunkUnload ⟨0, 0⟩) rfl

end ManagerState
end Foton.Entities

import Foton.Entities.Lifecycle

/-!
# Runs in a world

Every operation within a world keeps the indexes and the lists right. So in
every state of a run the tick list has exactly the live entities that tick, and
the accessible order those that are accessible.
-/

namespace Foton.Entities

variable {F : Type} [Coordinate F]

namespace ManagerState

variable {entities : SharedEntity → EntityData F} {s s' : ManagerState F} {entry : EntityEntry F}

/-- The invariant of the manager in a world. -/
structure Kept (s : ManagerState F) : Prop where
  indexed : s.Indexed
  world : s.InWorld
  listed : s.Listed

theorem InWorld.same (h : s.InWorld) (hlive : s'.liveById = s.liveById) (hunloading : s'.unloadingByChunk = s.unloadingByChunk) :
    s'.InWorld where
  live := by rw [hlive]; exact h.live
  unloading := by rw [hunloading]; exact h.unloading

theorem InWorld.insertLiveEntry (h : s.InWorld) (hi : s.insertLiveEntry entities entry = some s') (hentry : InRange entry.chunk) :
    s'.InWorld := by
  obtain ⟨-, -, -, cells, -, rfl⟩ := insertLiveEntry_eq_some hi
  refine ⟨?_, h.unloading⟩
  intro id e he
  rw [AssocList.lookup_insert] at he
  split at he
  · cases he
    exact hentry
  · exact h.live id e he

theorem InWorld.removeLiveEntry {id : Int} (h : s.InWorld) (hr : s.removeLiveEntry id = some (entry, s')) :
    s'.InWorld ∧ InRange entry.chunk := by
  obtain ⟨hlookup, rfl⟩ := removeLiveEntry_eq_some.mp hr
  refine ⟨⟨?_, h.unloading⟩, h.live id entry hlookup⟩
  intro i e he
  rw [AssocList.lookup_erase] at he
  split at he
  · cases he
  · exact h.live i e he

theorem Kept.rewritten {old new : EntityEntry F} (h : s.Kept) (hindexed : s'.Indexed) (hr : Rewritten s s' old new)
    (hnew : InRange new.chunk) : s'.Kept where
  indexed := hindexed
  world := by
    refine ⟨?_, by rw [hr.unloadingByChunk]; exact h.world.unloading⟩
    intro id e he
    rw [hr.liveById, AssocList.lookup_insert] at he
    split at he
    · cases he
      exact hnew
    · exact h.world.live id e he
  listed := h.listed.rewritten hr

theorem lifecycle_insertLiveEntry {state : ManagerState F} (hlisted : s.Listed)
    (hi : s.insertLiveEntry entities entry = some state) : (state.applyEntityLifecycleAfterInsert entry.entity.id).2.Listed := by
  have hinserted := (ListedBut.insertLiveEntry hlisted hi).applyEntityLifecycleAfterInsert entry.entity.id
  apply ListedWith.congr hinserted (fun _ _ _ => rfl)
  simp

/-- An entry is inserted and its lifecycle starts. -/
theorem Kept.inserted {state : ManagerState F} (h : s.Kept) (hi : s.insertLiveEntry entities entry = some state)
    (hentry : InRange entry.chunk) : (state.applyEntityLifecycleAfterInsert entry.entity.id).2.Kept where
  indexed := (h.indexed.insertLiveEntry hi).same (sameIndexes_applyEntityLifecycleAfterInsert state _)
  world := (h.world.insertLiveEntry hi hentry).same (sameIndexes_applyEntityLifecycleAfterInsert state _).liveById
    (sameChunks_applyEntityLifecycleAfterInsert state _).unloadingByChunk
  listed := lifecycle_insertLiveEntry h.listed hi

theorem Kept.removeLiveEntry {id : Int} (h : s.Kept) (hr : s.removeLiveEntry id = some (entry, s')) :
    s'.Kept ∧ InRange entry.chunk :=
  have hworld := h.world.removeLiveEntry hr
  ⟨⟨h.indexed.removeLiveEntry hr, hworld.1, ListedBut.removeLiveEntry h.listed hr⟩, hworld.2⟩

/-- Nothing that the invariant is about changes. -/
theorem Kept.aside (h : s.Kept) (hindexes : SameIndexes s s') (haccessible : s'.accessibleOrder = s.accessibleOrder)
    (htick : s'.tickList = s.tickList) (hvisibility : ∀ chunk, s'.chunkVisibilityAt chunk = s.chunkVisibilityAt chunk)
    (hunloading : ∀ chunk entries, s'.unloadingByChunk.lookup chunk = some entries → ∀ entry ∈ entries, InRange entry.chunk) :
    s'.Kept where
  indexed := h.indexed.same hindexes
  world := ⟨by rw [hindexes.liveById]; exact h.world.live, hunloading⟩
  listed := by
    apply ListedWith.congr (ListedWith.same h.listed ⟨hindexes.liveById, haccessible, htick⟩) _ fun _ _ _ => Iff.rfl
    exact fun _ entry _ => hvisibility entry.chunk

theorem Kept.changeVisibility {chunk : ChunkPos} {previous new : EntityVisibility} (h : s.Kept) (hchunk : InRange chunk)
    (hprevious : s.chunkVisibilityAt chunk = previous) (hindexes : SameIndexes s s')
    (haccessible : s'.accessibleOrder = s.accessibleOrder) (htick : s'.tickList = s.tickList)
    (hunloading : s'.unloadingByChunk = s.unloadingByChunk) (hnew : s'.chunkVisibilityAt chunk = new)
    (hothers : ∀ other, other ≠ chunk → s'.chunkVisibilityAt other = s.chunkVisibilityAt other) :
    (s'.applyChunkVisibilityChange chunk previous new).2.Kept := by
  have hindexed := h.indexed.same hindexes
  have hworld := h.world.same hindexes.liveById hunloading
  have haside := sameChunks_foldl_changeVisibility previous new (s'.entityIdsInChunkOrder chunk) (.none, s')
  have hsame := sameIndexes_applyChunkVisibilityChange s' chunk previous new
  refine ⟨hindexed.same hsame, hworld.same hsame.liveById haside.unloadingByChunk, ?_⟩
  have hbefore : s'.ListedWith
      (fun _ entry => if entry.chunk = chunk then previous else s'.chunkVisibilityAt entry.chunk) fun _ => False := by
    apply ListedWith.congr (ListedWith.same h.listed ⟨hindexes.liveById, haccessible, htick⟩) _ fun _ _ _ => Iff.rfl
    intro _ entry _
    split
    · rename_i heq
      rw [heq, hprevious]
    · rename_i hne
      exact hothers entry.chunk hne
  have hafter := Listed.applyChunkVisibilityChange hindexed hworld hchunk hbefore
  rw [hnew] at hafter
  apply hafter.congr _ fun _ _ _ => Iff.rfl
  intro _ entry _
  unfold chunkVisibilityAt applyChunkVisibilityChange
  rw [haside.chunkVisibility]

/-! ## Operations -/

theorem Kept.updateChunkVisibility {chunk : ChunkPos} {visibility : EntityVisibility} (h : s.Kept) (hchunk : InRange chunk) :
    (s.updateChunkVisibility chunk visibility).2.Kept := by
  have hlookup : ∀ other, chunkVisibilityAt { s with chunkVisibility := s.chunkVisibility.insert chunk visibility } other =
      if other = chunk then visibility else s.chunkVisibilityAt other := by
    intro other
    unfold chunkVisibilityAt
    rw [AssocList.lookup_insert]
    split
    · rfl
    · rfl
  unfold ManagerState.updateChunkVisibility
  dsimp only
  split
  · rename_i hsame
    refine h.aside ⟨rfl, rfl, rfl, rfl, rfl⟩ rfl rfl ?_ h.world.unloading
    intro other
    rw [hlookup]
    split
    · rename_i heq
      rw [heq, hsame]
    · rfl
  · refine h.changeVisibility hchunk rfl ⟨rfl, rfl, rfl, rfl, rfl⟩ rfl rfl rfl ?_ ?_
    · rw [hlookup, if_pos rfl]
    · intro other hne
      rw [hlookup, if_neg hne]

theorem Kept.restore {chunk : ChunkPos} {state state' : ChunkEntityLoadResult × ManagerState F} (h : state.2.Kept)
    (hentry : InRange entry.chunk) (hr : restore entities chunk state entry = some state') : state'.2.Kept := by
  unfold ManagerState.restore at hr
  split at hr
  · split at hr
    · cases hr
      exact h.aside ⟨rfl, rfl, rfl, rfl, rfl⟩ rfl rfl (fun _ => rfl) h.world.unloading
    · cases hr
      exact h
  · obtain ⟨s₁, hinsert, hr⟩ := Option.bind_eq_some_iff.mp hr
    cases hr
    exact h.inserted hinsert hentry

theorem Kept.onChunkLoaded {chunk : ChunkPos} {result : ChunkEntityLoadResult} (h : s.Kept)
    (hl : s.onChunkLoaded entities chunk = some (result, s')) : s'.Kept := by
  unfold ManagerState.onChunkLoaded at hl
  refine foldlM_invariant (P := fun state : ChunkEntityLoadResult × ManagerState F => state.2.Kept) ?_ ?_ hl
  · intro state entry hentry state' hstate hr
    refine hstate.restore ?_ hr
    cases hretained : s.unloadingByChunk.lookup chunk with
    | none =>
      rw [hretained] at hentry
      cases hentry
    | some entries =>
      rw [hretained] at hentry
      exact h.world.unloading chunk entries hretained entry hentry
  · refine h.aside ⟨rfl, rfl, rfl, rfl, rfl⟩ rfl rfl ?_ ?_
    · intro other
      unfold chunkVisibilityAt
      dsimp only
      split
      · rfl
      · rename_i hnone
        rw [AssocList.lookup_insert]
        split
        · rename_i heq
          rw [heq, Option.not_isSome_iff_eq_none.mp hnone]
          rfl
        · rfl
    · intro other entries hlookup
      rw [AssocList.lookup_erase] at hlookup
      split at hlookup
      · cases hlookup
      · exact h.world.unloading other entries hlookup

/-- What is true between two steps of a retention. -/
def Retention.Kept (r : Retention F) : Prop := r.state.Kept ∧ ∀ entry ∈ r.retained, InRange entry.chunk

theorem Retention.Kept.retainOne {r r' : Retention F} {id : Int} {passengers : List Int} (h : Retention.Kept r)
    (hr : retainOne entities r id = some (r', passengers)) : Retention.Kept r' := by
  unfold ManagerState.retainOne at hr
  split at hr
  · cases hr
    exact h
  · split at hr
    · cases hr
      exact h
    · rename_i entry removed hremove
      obtain ⟨hremoved, hentry⟩ := h.1.removeLiveEntry hremove
      obtain rfl := h.1.indexed.ids id entry (removeLiveEntry_eq_some.mp hremove).1
      split at hr
      · obtain ⟨s₁, hinsert, hr⟩ := Option.bind_eq_some_iff.mp hr
        cases hr
        refine ⟨?_, h.2⟩
        have hinserted := hremoved.inserted hinsert hentry
        obtain ⟨-, -, -, cells, -, rfl⟩ := insertLiveEntry_eq_some hinsert
        unfold applyEntityLifecycleAfterInsert at hinserted
        rw [show AList.lookup entry.entity.id _ = some (filed entities removed entry) from AList.lookup_insert _] at hinserted
        exact hinserted
      · cases hr
        refine ⟨hremoved, ?_⟩
        intro e he
        rcases List.mem_append.mp he with he | he
        · exact h.2 e he
        · rw [List.mem_singleton.mp he]
          exact hentry

theorem Kept.beginChunkUnload {chunk : ChunkPos} {start : ChunkEntityUnloadStart} (h : s.Kept) (hchunk : InRange chunk)
    (hb : s.beginChunkUnload entities chunk = some (start, s')) : s'.Kept := by
  unfold ManagerState.beginChunkUnload at hb
  obtain ⟨r, hretain, hb⟩ := Option.bind_eq_some_iff.mp hb
  cases hb
  have hlookup : ∀ other, chunkVisibilityAt { s with chunkVisibility := s.chunkVisibility.erase chunk } other =
      if other = chunk then .hidden else s.chunkVisibilityAt other := by
    intro other
    unfold chunkVisibilityAt
    rw [AssocList.lookup_erase]
    split
    · rfl
    · rfl
  have hchanged : (applyChunkVisibilityChange { s with chunkVisibility := s.chunkVisibility.erase chunk } chunk
      (s.chunkVisibilityAt chunk) .hidden).2.Kept := by
    refine h.changeVisibility hchunk rfl ⟨rfl, rfl, rfl, rfl, rfl⟩ rfl rfl rfl ?_ ?_
    · rw [hlookup, if_pos rfl]
    · intro other hne
      rw [hlookup, if_neg hne]
  obtain ⟨hkept, hretained⟩ := retainTrees_invariant (fun _ _ _ _ h => Retention.Kept.retainOne h)
    ⟨hchanged, by rintro _ ⟨⟩⟩ hretain
  split
  · exact hkept
  · refine hkept.aside ⟨rfl, rfl, rfl, rfl, rfl⟩ rfl rfl (fun _ => rfl) ?_
    intro other entries hentries entry hentry
    rw [AssocList.lookup_insert] at hentries
    split at hentries
    · cases hentries
      rcases List.mem_append.mp hentry with hentry | hentry
      · cases hold : r.state.unloadingByChunk.lookup chunk with
        | none =>
          rw [hold] at hentry
          cases hentry
        | some old =>
          rw [hold] at hentry
          exact hkept.world.unloading chunk old hold entry hentry
      · exact hretained entry hentry
    · exact hkept.world.unloading other entries hentries entry hentry

theorem Kept.addLiveEntity {entity : SharedEntity} {ownership : EntityOwnership}
    {result : Except AddEntityError EntityLifecycleChanges} (h : s.Kept)
    (hentity : InRange (SectionPos.fromEntityPos (entities entity).position).chunk)
    (ha : s.addLiveEntity entities entity ownership = some (result, s')) : s'.Kept := by
  unfold ManagerState.addLiveEntity at ha
  split at ha
  · cases ha
    exact h
  · rename_i entry hentry
    split at ha
    · cases ha
    · cases ha
      exact h
    · obtain ⟨s₁, hinsert, ha⟩ := Option.bind_eq_some_iff.mp ha
      cases ha
      unfold checkedLiveEntry at hentry
      split at hentry
      · cases hentry
      · cases hentry
        exact h.inserted hinsert hentity

theorem ListedBut.foldlM_insertLiveEntry {pending : Int → Prop} {entries : List (EntityEntry F)} (h : s.ListedBut pending)
    (hi : entries.foldlM (fun s entry => ManagerState.insertLiveEntry entities s entry) s = some s') :
    s'.ListedBut fun id => pending id ∨ ∃ entry ∈ entries, id = entry.entity.id := by
  induction entries generalizing s pending with
  | nil =>
    cases hi
    exact ListedWith.congr h (fun _ _ _ => rfl) (by simp)
  | cons entry rest ih =>
    rw [List.foldlM_cons] at hi
    obtain ⟨s₁, hinsert, hi⟩ := Option.bind_eq_some_iff.mp hi
    exact ListedWith.congr (ih (h.insertLiveEntry hinsert) hi) (fun _ _ _ => rfl) (by simp [or_assoc])

/-- The lifecycles of a tree start. -/
theorem ListedBut.lifecycles {pending : Int → Prop} (entries : List (EntityEntry F))
    (state : EntityLifecycleChanges × ManagerState F) (h : state.2.ListedBut pending) :
    (entries.foldl (fun state entry =>
      ((state.1.extend (state.2.applyEntityLifecycleAfterInsert entry.entity.id).1,
        (state.2.applyEntityLifecycleAfterInsert entry.entity.id).2) : EntityLifecycleChanges × ManagerState F)) state).2.ListedBut
      fun id => pending id ∧ ∀ entry ∈ entries, id ≠ entry.entity.id := by
  induction entries generalizing state pending with
  | nil => exact ListedWith.congr h (fun _ _ _ => rfl) (by simp)
  | cons entry rest ih =>
    rw [List.foldl_cons]
    have hlisted := ih (state.1.extend (state.2.applyEntityLifecycleAfterInsert entry.entity.id).1,
      (state.2.applyEntityLifecycleAfterInsert entry.entity.id).2) (h.applyEntityLifecycleAfterInsert entry.entity.id)
    exact ListedWith.congr hlisted (fun _ _ _ => rfl) (by simp [and_assoc])

theorem Kept.addLiveEntityTree {tree : List SharedEntity} {ownership : EntityOwnership}
    {result : Except AddEntityError EntityLifecycleChanges} (h : s.Kept)
    (htree : ∀ entity ∈ tree, InRange (SectionPos.fromEntityPos (entities entity).position).chunk)
    (ha : s.addLiveEntityTree entities tree ownership = some (result, s')) : s'.Kept := by
  have hindexed := h.indexed.addLiveEntityTree ha
  unfold ManagerState.addLiveEntityTree at ha
  split at ha
  · cases ha
    exact h
  · rename_i entries hentries
    split at ha
    · cases ha
    · cases ha
      exact h
    · cases ha
    · cases ha
      exact h
    · obtain ⟨s₁, hinsert, ha⟩ := Option.bind_eq_some_iff.mp ha
      cases ha
      have hrange : ∀ entry ∈ entries, InRange entry.chunk := by
        intro entry hentry
        obtain ⟨entity, hentity, hchecked⟩ := exists_of_mem_mapM_ok hentries hentry
        unfold checkedLiveEntry at hchecked
        split at hchecked
        · cases hchecked
        · cases hchecked
          exact htree entity hentity
      have hworld := foldlM_invariant (P := InWorld)
        (fun _ entry hentry _ hworld hi => hworld.insertLiveEntry hi (hrange entry hentry)) h.world hinsert
      have hlisted := ListedBut.lifecycles entries (.none, s₁) (ListedBut.foldlM_insertLiveEntry h.listed hinsert)
      refine ⟨hindexed, hworld.same (sameIndexes_lifecycles entries (.none, s₁)).liveById
        (sameChunks_lifecycles entries (.none, s₁)).unloadingByChunk, ?_⟩
      apply ListedWith.congr hlisted (fun _ _ _ => rfl)
      intro id _ _
      simp only [false_or, false_iff, not_and, not_forall]
      rintro ⟨entry, hentry, rfl⟩
      exact ⟨entry, hentry, not_not.mpr rfl⟩

theorem Kept.removeLiveEntity {id : Int} {reason : RemovalReason} (h : s.Kept) :
    (s.removeLiveEntity entities id reason).2.Kept := by
  unfold ManagerState.removeLiveEntity
  split
  · exact h
  · rename_i entry s₁ hremove
    obtain ⟨hremoved, -⟩ := h.removeLiveEntry hremove
    dsimp only
    split
    · exact hremoved.aside ⟨rfl, rfl, rfl, rfl, rfl⟩ rfl rfl (fun _ => rfl) hremoved.world.unloading
    · exact hremoved

end ManagerState

/-! ## Runs -/

/-- The operation is about chunks of the world. -/
def Operation.InWorld (entities : SharedEntity → EntityData F) : Operation F → Prop
  | .addLiveEntity entity _ => InRange (SectionPos.fromEntityPos (entities entity).position).chunk
  | .addLiveEntityTree tree _ => ∀ entity ∈ tree, InRange (SectionPos.fromEntityPos (entities entity).position).chunk
  | .commitMove _ newPos => InRange (SectionPos.fromEntityPos newPos).chunk
  | .updateChunkVisibility chunk _ => InRange chunk
  | .beginChunkUnload chunk => InRange chunk
  | _ => True

namespace ManagerState

variable {entities : SharedEntity → EntityData F} {s s' : ManagerState F} {op : Operation F}

theorem Kept.exec (h : s.Kept) (hop : op.InWorld entities) (he : s.exec entities op = some s') : s'.Kept := by
  have hindexed := h.indexed.exec he
  cases op with
  | addLiveEntity entity ownership =>
    obtain ⟨⟨result, s₁⟩, ha, rfl⟩ := Option.map_eq_some_iff.mp he
    exact h.addLiveEntity hop ha
  | addLiveEntityTree tree ownership =>
    obtain ⟨⟨result, s₁⟩, ha, rfl⟩ := Option.map_eq_some_iff.mp he
    exact h.addLiveEntityTree hop ha
  | removeLiveEntity id reason =>
    cases he
    exact h.removeLiveEntity
  | commitMove id newPos =>
    obtain ⟨⟨result, s₁⟩, hc, rfl⟩ := Option.map_eq_some_iff.mp he
    rcases commitMove_cases h.indexed hc with rfl | ⟨old, new, hr, hchunk⟩
    · exact h
    · exact h.rewritten hindexed hr (by rw [hchunk]; exact hop)
  | commitBoundingBoxChange id =>
    rcases commitBoundingBoxChange_cases h.indexed he with rfl | ⟨old, new, hr, hchunk⟩
    · exact h
    · exact h.rewritten hindexed hr (by rw [hchunk]; exact h.world.live _ old hr.live)
  | updateChunkVisibility chunk visibility =>
    cases he
    exact h.updateChunkVisibility hop
  | reserveInboundChunk chunk =>
    cases he
    exact h.aside ⟨rfl, rfl, rfl, rfl, rfl⟩ rfl rfl (fun _ => rfl) h.world.unloading
  | releaseInboundChunk chunk =>
    cases he
    unfold releaseInboundChunk
    split
    · exact h
    · split
      · exact h.aside ⟨rfl, rfl, rfl, rfl, rfl⟩ rfl rfl (fun _ => rfl) h.world.unloading
      · exact h.aside ⟨rfl, rfl, rfl, rfl, rfl⟩ rfl rfl (fun _ => rfl) h.world.unloading
  | onChunkLoaded chunk =>
    obtain ⟨⟨result, s₁⟩, hl, rfl⟩ := Option.map_eq_some_iff.mp he
    exact h.onChunkLoaded hl
  | beginChunkUnload chunk =>
    obtain ⟨⟨start, s₁⟩, hb, rfl⟩ := Option.map_eq_some_iff.mp he
    exact h.beginChunkUnload hop hb
  | finalizeChunkUnload chunk =>
    cases he
    refine h.aside ⟨rfl, rfl, rfl, rfl, rfl⟩ rfl rfl (fun _ => rfl) ?_
    intro other entries hlookup
    dsimp only [finalizeChunkUnload] at hlookup
    rw [AssocList.lookup_erase] at hlookup
    split at hlookup
    · cases hlookup
    · exact h.world.unloading other entries hlookup
  | onChunkSaved chunk ids =>
    cases he
    unfold onChunkSaved
    split
    · exact h
    · split
      · exact h
      · dsimp only
        split
        · exact h.aside ⟨rfl, rfl, rfl, rfl, rfl⟩ rfl rfl (fun _ => rfl) h.world.unloading
        · exact h.aside ⟨rfl, rfl, rfl, rfl, rfl⟩ rfl rfl (fun _ => rfl) h.world.unloading

theorem kept_new : (new : ManagerState F).Kept :=
  ⟨indexed_new, ⟨by rintro id entry ⟨⟩, by rintro chunk entries ⟨⟩⟩, listed_new⟩

/-- In every state of a run in a world the tick list has exactly the live entities that tick, and the
accessible order those that are accessible. -/
theorem lists_exact {steps : List ((SharedEntity → EntityData F) × Operation F)}
    (hsteps : ∀ step ∈ steps, step.2.InWorld step.1) (hr : new.run steps = some s) :
    (∀ id, id ∈ s.tickList.ids ↔ ∃ entry, s.liveById.lookup id = some entry ∧ s.ticks entry = true) ∧
    (∀ id entry, s.liveById.lookup id = some entry → Regular entry →
      (id ∈ s.accessibleOrder.ids ↔ s.isAccessible entry = true)) := by
  have h := foldlM_invariant (P := Kept) (fun s step hstep s' hs he => hs.exec (hsteps step hstep) he) kept_new hr
  refine ⟨?_, h.listed.accessible⟩
  intro id
  rw [h.listed.ticking]
  unfold ticks
  simp

theorem lists_exact_zombie : zombie.id ∈ zombieState.tickList.ids ∧ zombie.id ∈ zombieState.accessibleOrder.ids := by
  have hsteps : ∀ step ∈ zombieSteps, step.2.InWorld step.1 := by
    intro step hstep
    rcases List.mem_cons.mp hstep with rfl | hstep
    · exact (by decide : InRange ⟨0, 0⟩)
    · rw [List.mem_singleton.mp hstep]
      exact (by decide : InRange ⟨0, 0⟩)
  have hlists := lists_exact hsteps run_zombieSteps
  exact ⟨(hlists.1 zombie.id).mpr ⟨_, rfl, by decide⟩, (hlists.2 zombie.id _ rfl (by intro h; cases h)).mpr (by decide)⟩

end ManagerState
end Foton.Entities

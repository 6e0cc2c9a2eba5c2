import Foton.Lib.Coverage
import Foton.Poi.Set
import Foton.Section.Counts

/-!
# The point of interest storage of a world

The storage keeps the sets of the sections by column. Seen from outside it maps
block positions to points of interest, and every operation is an update of that map.
-/

namespace Foton.Poi

open Light (blockToSectionCoord)

/-! ## The types -/

structure PoiBlockMatcher where
  block : String
  properties : List (String × String)

structure PointOfInterestType where
  key : String
  blocks : List PoiBlockMatcher
  ticketCount : Nat

structure PoiTypeRegistry where
  typesById : List PointOfInterestType
  stateToType : AssocList BlockStateId Nat
  known : ∀ state t, stateToType.lookup state = some t → t < typesById.length

namespace PoiTypeRegistry

def new : PoiTypeRegistry := ⟨[], ∅, by simp⟩

def register (types : PoiTypeRegistry) (poiType : PointOfInterestType) : PoiTypeRegistry where
  typesById := types.typesById ++ [poiType]
  stateToType := types.stateToType
  known := by
    intro state t h
    rw [List.length_append]
    exact Nat.lt_add_right _ (types.known state t h)

/-- The pairs of a state and a type, in the order in which the index is built. -/
def stateEntries (matchingStates : PoiBlockMatcher → List BlockStateId) (typesById : List PointOfInterestType) :
    List (BlockStateId × Nat) :=
  typesById.zipIdx.flatMap fun poiType => poiType.1.blocks.flatMap fun matcher =>
    (matchingStates matcher).map fun state => (state, poiType.2)

theorem stateEntries_lt {matchingStates : PoiBlockMatcher → List BlockStateId} {typesById : List PointOfInterestType}
    {e : BlockStateId × Nat} (h : e ∈ stateEntries matchingStates typesById) : e.2 < typesById.length := by
  obtain ⟨poiType, htype, hmatcher⟩ := List.mem_flatMap.mp h
  obtain ⟨matcher, _, hstate⟩ := List.mem_flatMap.mp hmatcher
  obtain ⟨state, _, rfl⟩ := List.mem_map.mp hstate
  exact List.snd_lt_of_mem_zipIdx htype

def buildStateIndex (matchingStates : PoiBlockMatcher → List BlockStateId) (types : PoiTypeRegistry) : PoiTypeRegistry where
  typesById := types.typesById
  stateToType := AssocList.insertAll (stateEntries matchingStates types.typesById) ∅
  known := by
    intro state t h
    rcases AssocList.lookup_insertAll (stateEntries matchingStates types.typesById) ∅ state with ⟨hnone, _⟩ | ⟨t', hmem, hsome⟩
    · rw [hnone] at h
      cases h
    · rw [hsome] at h
      cases h
      exact stateEntries_lt hmem

variable (types : PoiTypeRegistry)

def byId (id : Nat) : Option PointOfInterestType := types.typesById[id]?

def typeIdForState (state : BlockStateId) : Option Nat := types.stateToType.lookup state

def isPoiState (state : BlockStateId) : Bool := (types.typeIdForState state).isSome

def maxTicketsFor (typeId : Nat) : Nat := ((types.byId typeId).map PointOfInterestType.ticketCount).getD 0

def isVillageType (villageTag : List String) (typeId : Nat) : Bool :=
  (types.byId typeId).any fun poiType => decide (poiType.key ∈ villageTag)

/-- The type of a state with its tickets. That the identifier is known is what the caller expects. -/
def ticketsForState (state : BlockStateId) : Option (Nat × Nat) :=
  match h : types.stateToType.lookup state with
  | none => none
  | some t => some (t, (types.typesById.get ⟨t, types.known state t h⟩).ticketCount)

theorem ticketsForState_eq (state : BlockStateId) :
    types.ticketsForState state = (types.typeIdForState state).map fun t => (t, types.maxTicketsFor t) := by
  unfold ticketsForState typeIdForState
  split
  · rename_i h
    rw [h]
    rfl
  · rename_i t h
    simp [h, maxTicketsFor, byId, List.getElem?_eq_getElem (types.known state t h)]

end PoiTypeRegistry

/-! ## The columns -/

abbrev PoiColumn : Type := AssocList Int PointOfInterestSet

section

variable {columns : AssocList ChunkPos PoiColumn} {s s' : SectionPos} {set : PointOfInterestSet}

def sectionAt (columns : AssocList ChunkPos PoiColumn) (s : SectionPos) : Option PointOfInterestSet :=
  (columns.lookup s.chunk).bind fun column => column.lookup s.y

def putSection (columns : AssocList ChunkPos PoiColumn) (s : SectionPos) (set : PointOfInterestSet) : AssocList ChunkPos PoiColumn :=
  columns.insert s.chunk (((columns.lookup s.chunk).getD ∅).insert s.y set)

/-- An empty column goes with its last section. -/
def dropSection (columns : AssocList ChunkPos PoiColumn) (s : SectionPos) : AssocList ChunkPos PoiColumn :=
  match columns.lookup s.chunk with
  | none => columns
  | some column =>
    if (column.erase s.y).entries.isEmpty then columns.erase s.chunk else columns.insert s.chunk (column.erase s.y)

theorem SectionPos.eq_iff : s' = s ↔ s'.chunk = s.chunk ∧ s'.y = s.y := by
  cases s
  cases s'
  simp [SectionPos.chunk]
  tauto

theorem sectionAt_putSection : sectionAt (putSection columns s set) s' = if s' = s then some set else sectionAt columns s' := by
  unfold sectionAt putSection
  rw [AssocList.lookup_insert]
  by_cases hchunk : s'.chunk = s.chunk
  · rw [if_pos hchunk, Option.bind_some, AssocList.lookup_insert, hchunk]
    by_cases hy : s'.y = s.y
    · rw [if_pos hy, if_pos (SectionPos.eq_iff.mpr ⟨hchunk, hy⟩)]
    · rw [if_neg hy, if_neg fun h => hy (SectionPos.eq_iff.mp h).2]
      cases columns.lookup s.chunk with
      | none => simp
      | some column => rfl
  · rw [if_neg hchunk, if_neg fun h => hchunk (SectionPos.eq_iff.mp h).1]

theorem sectionAt_dropSection : sectionAt (dropSection columns s) s' = if s' = s then none else sectionAt columns s' := by
  unfold dropSection
  cases hcolumn : columns.lookup s.chunk with
  | none =>
    dsimp only
    by_cases h : s' = s
    · subst h
      simp [sectionAt, hcolumn]
    · rw [if_neg h]
  | some column =>
    -- within the column, the section's entry is gone
    have hinside : s'.chunk = s.chunk → (column.erase s.y).lookup s'.y = if s' = s then none else sectionAt columns s' := by
      intro hchunk
      rw [AssocList.lookup_erase]
      by_cases hy : s'.y = s.y
      · rw [if_pos hy, if_pos (SectionPos.eq_iff.mpr ⟨hchunk, hy⟩)]
      · rw [if_neg hy, if_neg fun h => hy (SectionPos.eq_iff.mp h).2]
        unfold sectionAt
        rw [hchunk, hcolumn, Option.bind_some]
    have houtside : s'.chunk ≠ s.chunk → s' ≠ s := fun hchunk h => hchunk (SectionPos.eq_iff.mp h).1
    dsimp only
    by_cases hempty : (column.erase s.y).entries.isEmpty
    · rw [if_pos hempty]
      by_cases hchunk : s'.chunk = s.chunk
      · rw [← hinside hchunk]
        have hnone : (column.erase s.y).lookup s'.y = none := by
          apply AList.lookup_eq_none.mpr
          simp [AList.mem_keys, AList.keys, List.isEmpty_iff.mp hempty]
        unfold sectionAt
        rw [AssocList.lookup_erase, if_pos hchunk, hnone]
        rfl
      · rw [if_neg (houtside hchunk)]
        unfold sectionAt
        rw [AssocList.lookup_erase, if_neg hchunk]
    · rw [if_neg hempty]
      by_cases hchunk : s'.chunk = s.chunk
      · rw [← hinside hchunk]
        unfold sectionAt
        rw [AssocList.lookup_insert, if_pos hchunk]
        rfl
      · rw [if_neg (houtside hchunk)]
        unfold sectionAt
        rw [AssocList.lookup_insert, if_neg hchunk]

end

/-- Every point of interest is kept under its own position. -/
def Placed (columns : AssocList ChunkPos PoiColumn) : Prop :=
  ∀ s set p poi, sectionAt columns s = some set → set.get p = some poi →
    SectionPos.fromBlockPos poi.pos = s ∧ PackedSectionBlockPos.fromBlockPos poi.pos = p

def PlacedSet (s : SectionPos) (set : PointOfInterestSet) : Prop :=
  ∀ p poi, set.get p = some poi → SectionPos.fromBlockPos poi.pos = s ∧ PackedSectionBlockPos.fromBlockPos poi.pos = p

section

variable {columns : AssocList ChunkPos PoiColumn} {s : SectionPos} {set : PointOfInterestSet} {p : PackedSectionBlockPos}

theorem Placed.put (h : Placed columns) (hset : PlacedSet s set) : Placed (putSection columns s set) := by
  intro s' set' p poi hsection hget
  rw [sectionAt_putSection] at hsection
  by_cases hs : s' = s
  · rw [if_pos hs] at hsection
    cases hsection
    rw [hs]
    exact hset p poi hget
  · rw [if_neg hs] at hsection
    exact h s' set' p poi hsection hget

theorem Placed.drop (h : Placed columns) (s : SectionPos) : Placed (dropSection columns s) := by
  intro s' set' p poi hsection hget
  rw [sectionAt_dropSection] at hsection
  by_cases hs : s' = s
  · rw [if_pos hs] at hsection
    cases hsection
  · rw [if_neg hs] at hsection
    exact h s' set' p poi hsection hget

theorem Placed.getD (h : Placed columns) : PlacedSet s ((sectionAt columns s).getD PointOfInterestSet.new) := by
  intro p poi hget
  cases hsection : sectionAt columns s with
  | none =>
    rw [hsection] at hget
    cases hget
  | some set =>
    rw [hsection] at hget
    exact h s set p poi hsection hget

theorem PlacedSet.add (h : PlacedSet s set) {poi : PointOfInterest} (hs : SectionPos.fromBlockPos poi.pos = s)
    (hp : PackedSectionBlockPos.fromBlockPos poi.pos = p) : PlacedSet s (set.add p poi) := by
  intro q poi' hget
  rw [PointOfInterestSet.get_add] at hget
  by_cases hq : q = p
  · rw [if_pos hq] at hget
    cases hold : set.get p with
    | none =>
      rw [hold] at hget
      cases hget
      exact ⟨hs, hp.trans hq.symm⟩
    | some old =>
      rw [hold] at hget
      rw [hq, ← Option.some.inj hget]
      exact h p old hold
  · rw [if_neg hq] at hget
    exact h q poi' hget

theorem PlacedSet.remove (h : PlacedSet s set) : PlacedSet s (set.remove p) := by
  intro q poi hget
  rw [PointOfInterestSet.get_remove] at hget
  by_cases hq : q = p
  · rw [if_pos hq] at hget
    cases hget
  · rw [if_neg hq] at hget
    exact h q poi hget

theorem PlacedSet.setFreeTickets (h : PlacedSet s set) (n : Nat) : PlacedSet s (set.setFreeTickets p n) := by
  intro q poi hget
  rw [PointOfInterestSet.get_setFreeTickets] at hget
  by_cases hq : q = p
  · rw [if_pos hq] at hget
    obtain ⟨old, hold, rfl⟩ := Option.map_eq_some_iff.mp hget
    rw [hq]
    exact h p old hold
  · rw [if_neg hq] at hget
    exact h q poi hget

end

/-! ## The storage -/

structure PointOfInterestStorage where
  columns : AssocList ChunkPos PoiColumn
  placed : Placed columns

namespace PointOfInterestStorage

def new : PointOfInterestStorage where
  columns := ∅
  placed := by
    intro s set p poi h
    simp [sectionAt] at h

variable (storage : PointOfInterestStorage)

/-- The point of interest at a position. -/
def get? (pos : BlockPos) : Option PointOfInterest :=
  (sectionAt storage.columns (SectionPos.fromBlockPos pos)).bind fun set => set.get (PackedSectionBlockPos.fromBlockPos pos)

variable {storage}

theorem get?_pos {pos : BlockPos} {poi : PointOfInterest} (h : storage.get? pos = some poi) : poi.pos = pos := by
  obtain ⟨set, hset, hget⟩ := Option.bind_eq_some_iff.mp h
  obtain ⟨hs, hp⟩ := storage.placed _ set _ poi hset hget
  exact pos_ext hs hp

theorem get?_of_get {s : SectionPos} {set : PointOfInterestSet} {p : PackedSectionBlockPos} {poi : PointOfInterest}
    (hset : sectionAt storage.columns s = some set) (hget : set.get p = some poi) : storage.get? poi.pos = some poi := by
  obtain ⟨rfl, rfl⟩ := storage.placed s set p poi hset hget
  exact Option.bind_eq_some_iff.mpr ⟨set, hset, hget⟩

@[simp]
theorem get?_new (pos : BlockPos) : new.get? pos = none := by
  simp [new, get?, sectionAt]

variable (storage)

def putSet (s : SectionPos) (set : PointOfInterestSet) (h : PlacedSet s set) : PointOfInterestStorage :=
  ⟨putSection storage.columns s set, storage.placed.put h⟩

theorem get?_putSet {s : SectionPos} {set : PointOfInterestSet} (h : PlacedSet s set) (q : BlockPos) :
    (storage.putSet s set h).get? q =
      if SectionPos.fromBlockPos q = s then set.get (PackedSectionBlockPos.fromBlockPos q) else storage.get? q := by
  unfold get? putSet
  rw [sectionAt_putSection]
  by_cases hs : SectionPos.fromBlockPos q = s
  · rw [if_pos hs, if_pos hs]
    rfl
  · rw [if_neg hs, if_neg hs]

/-- A change of one position of a section is a change of that position alone. -/
theorem get?_putSet_single {pos : BlockPos} {set : PointOfInterestSet} (h : PlacedSet (SectionPos.fromBlockPos pos) set)
    {new? : Option PointOfInterest} (hset : ∀ p, set.get p = if p = PackedSectionBlockPos.fromBlockPos pos then new?
      else (sectionAt storage.columns (SectionPos.fromBlockPos pos)).bind fun set => set.get p) (q : BlockPos) :
    (storage.putSet (SectionPos.fromBlockPos pos) set h).get? q = if q = pos then new? else storage.get? q := by
  rw [get?_putSet]
  by_cases hs : SectionPos.fromBlockPos q = SectionPos.fromBlockPos pos
  · rw [if_pos hs, hset]
    by_cases hp : PackedSectionBlockPos.fromBlockPos q = PackedSectionBlockPos.fromBlockPos pos
    · rw [if_pos hp, if_pos (pos_ext hs hp)]
    · rw [if_neg hp, if_neg fun hq => hp (congrArg _ hq), ← hs]
      rfl
  · rw [if_neg hs, if_neg fun hq => hs (congrArg _ hq)]

def add (pos : BlockPos) (poiTypeId maxTickets : Nat) : PointOfInterestStorage :=
  let set := (sectionAt storage.columns (SectionPos.fromBlockPos pos)).getD PointOfInterestSet.new
  storage.putSet (SectionPos.fromBlockPos pos)
    (set.add (PackedSectionBlockPos.fromBlockPos pos) (PointOfInterest.new pos poiTypeId maxTickets))
    (storage.placed.getD.add rfl rfl)

theorem get_getD (s : SectionPos) (p : PackedSectionBlockPos) :
    ((sectionAt storage.columns s).getD PointOfInterestSet.new).get p =
      (sectionAt storage.columns s).bind fun set => set.get p := by
  cases sectionAt storage.columns s <;> rfl

theorem get?_add (pos : BlockPos) (poiTypeId maxTickets : Nat) (q : BlockPos) :
    (storage.add pos poiTypeId maxTickets).get? q =
      if q = pos then some ((storage.get? pos).getD (PointOfInterest.new pos poiTypeId maxTickets)) else storage.get? q := by
  unfold add
  apply get?_putSet_single
  intro p
  rw [PointOfInterestSet.get_add, get_getD, get_getD]
  rfl

def remove (pos : BlockPos) : PointOfInterestStorage :=
  match h : sectionAt storage.columns (SectionPos.fromBlockPos pos) with
  | none => storage
  | some set =>
    if (set.remove (PackedSectionBlockPos.fromBlockPos pos)).isEmpty then
      ⟨dropSection storage.columns (SectionPos.fromBlockPos pos), storage.placed.drop _⟩
    else
      storage.putSet (SectionPos.fromBlockPos pos) (set.remove (PackedSectionBlockPos.fromBlockPos pos))
        (PlacedSet.remove fun p poi => storage.placed _ set p poi h)

theorem get?_remove (pos q : BlockPos) : (storage.remove pos).get? q = if q = pos then none else storage.get? q := by
  unfold remove
  split
  · rename_i h
    by_cases hq : q = pos
    · subst hq
      simp [get?, h]
    · rw [if_neg hq]
  · rename_i set h
    by_cases hempty : (set.remove (PackedSectionBlockPos.fromBlockPos pos)).isEmpty
    · rw [if_pos hempty]
      rw [PointOfInterestSet.isEmpty_iff] at hempty
      unfold get?
      dsimp only
      rw [sectionAt_dropSection]
      by_cases hs : SectionPos.fromBlockPos q = SectionPos.fromBlockPos pos
      · rw [if_pos hs, Option.bind_none]
        by_cases hq : q = pos
        · rw [if_pos hq]
        · -- the section held nothing but the removed position
          rw [if_neg hq, hs, h, Option.bind_some]
          have hget := hempty (PackedSectionBlockPos.fromBlockPos q)
          rw [PointOfInterestSet.get_remove, if_neg fun hp => hq (pos_ext hs hp)] at hget
          exact hget.symm
      · rw [if_neg hs, if_neg fun hq => hs (congrArg _ hq)]
    · rw [if_neg hempty]
      apply get?_putSet_single
      intro p
      rw [PointOfInterestSet.get_remove, h, Option.bind_some]

/-- A write of the free tickets at a place in a section, if there is a point of interest. -/
def setFreeTicketsAt (s : SectionPos) (p : PackedSectionBlockPos) (n : Nat) : PointOfInterestStorage :=
  match h : sectionAt storage.columns s with
  | none => storage
  | some set =>
    storage.putSet s (set.setFreeTickets p n) (PlacedSet.setFreeTickets (fun p poi => storage.placed s set p poi h) n)

def setFreeTickets (pos : BlockPos) (n : Nat) : PointOfInterestStorage :=
  storage.setFreeTicketsAt (SectionPos.fromBlockPos pos) (PackedSectionBlockPos.fromBlockPos pos) n

theorem get?_setFreeTickets (pos : BlockPos) (n : Nat) (q : BlockPos) :
    (storage.setFreeTickets pos n).get? q =
      if q = pos then (storage.get? pos).map fun poi => { poi with freeTickets := n } else storage.get? q := by
  unfold setFreeTickets setFreeTicketsAt
  split
  · rename_i h
    by_cases hq : q = pos
    · subst hq
      simp [get?, h]
    · rw [if_neg hq]
  · rename_i set h
    apply get?_putSet_single
    intro p
    rw [PointOfInterestSet.get_setFreeTickets]
    unfold get?
    rw [h, Option.bind_some, Option.bind_some]

def getType (pos : BlockPos) : Option Nat := (storage.get? pos).map PointOfInterest.poiTypeId

def existsAt (pos : BlockPos) (typePredicate : Nat → Bool) : Bool := (storage.getType pos).any typePredicate

def isOccupied (types : PoiTypeRegistry) (pos : BlockPos) : Bool :=
  match storage.get? pos with
  | none => false
  | some poi => poi.isOccupied (types.maxTicketsFor poi.poiTypeId)

def reserveTicket (pos : BlockPos) : PointOfInterestStorage × Bool :=
  match storage.get? pos with
  | none => (storage, false)
  | some poi =>
    let (poi, reserved) := poi.reserveTicket
    (storage.setFreeTickets pos poi.freeTickets, reserved)

def releaseTicket (types : PoiTypeRegistry) (pos : BlockPos) : PointOfInterestStorage × Bool :=
  match storage.get? pos with
  | none => (storage, false)
  | some poi =>
    let (poi, released) := poi.releaseTicket (types.maxTicketsFor poi.poiTypeId)
    (storage.setFreeTickets pos poi.freeTickets, released)

def removeChunk (chunk : ChunkPos) : PointOfInterestStorage where
  columns := storage.columns.erase chunk
  placed := by
    intro s set p poi hsection hget
    unfold sectionAt at hsection
    rw [AssocList.lookup_erase] at hsection
    by_cases hs : s.chunk = chunk
    · rw [if_pos hs] at hsection
      cases hsection
    · rw [if_neg hs] at hsection
      exact storage.placed s set p poi hsection hget

theorem get?_removeChunk (chunk : ChunkPos) (q : BlockPos) :
    (storage.removeChunk chunk).get? q = if (SectionPos.fromBlockPos q).chunk = chunk then none else storage.get? q := by
  unfold removeChunk get? sectionAt
  dsimp only
  rw [AssocList.lookup_erase]
  by_cases hs : (SectionPos.fromBlockPos q).chunk = chunk
  · rw [if_pos hs, if_pos hs]
    rfl
  · rw [if_neg hs, if_neg hs]

end PointOfInterestStorage
end Foton.Poi

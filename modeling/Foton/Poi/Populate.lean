import Foton.Poi.Storage
import Foton.Section.Runs

/-!
# Points of interest and blocks

When a chunk loads, its points of interest are found from its block states, and
the saved tickets are put back. Afterwards each change of a block is reported.
-/

namespace Foton.Poi

open Light (blockToSectionCoord)

/-! ## Scanning a section -/

/-- A cell of a section, in the order y, z, x of the scan. -/
abbrev Cell : Type := Fin 16 × Fin 16 × Fin 16

def allCells : List Cell :=
  (List.finRange 16).flatMap fun y => (List.finRange 16).flatMap fun z => (List.finRange 16).map fun x => (y, z, x)

def cellPos (s : SectionPos) (c : Cell) : BlockPos := ⟨s.x * 16 + c.2.2, s.y * 16 + c.1, s.z * 16 + c.2.1⟩

def localCoord (a : Int) : Fin 16 := Fin.ofNat 16 (a % 16).toNat

def cellOf (pos : BlockPos) : Cell := (localCoord pos.y, localCoord pos.z, localCoord pos.x)

def cellState (states : BlockPalette) (c : Cell) : BlockStateId := states.get c.2.2 c.1 c.2.1

theorem mem_allCells (c : Cell) : c ∈ allCells := by
  unfold allCells
  simp only [List.mem_flatMap, List.mem_map]
  exact ⟨c.1, List.mem_finRange _, c.2.1, List.mem_finRange _, c.2.2, List.mem_finRange _, rfl⟩

@[simp]
theorem localCoord_val (a : Int) : ((localCoord a : Fin 16) : Int) = a % 16 := by
  unfold localCoord
  rw [Fin.val_ofNat]
  omega

theorem cellOf_cellPos (s : SectionPos) (c : Cell) : cellOf (cellPos s c) = c := by
  have hcoord : ∀ (a : Int) (i : Fin 16), localCoord (a * 16 + i) = i := by
    intro a i
    apply Fin.ext
    have h := localCoord_val (a * 16 + i)
    omega
  unfold cellOf cellPos
  simp only [hcoord]

theorem cellPos_cellOf {s : SectionPos} {pos : BlockPos} (h : SectionPos.fromBlockPos pos = s) : cellPos s (cellOf pos) = pos := by
  subst h
  unfold cellPos cellOf SectionPos.fromBlockPos blockToSectionCoord
  ext <;> simp only [localCoord_val] <;> omega

theorem section_cellPos (s : SectionPos) (c : Cell) : SectionPos.fromBlockPos (cellPos s c) = s := by
  obtain ⟨y, z, x⟩ := c
  cases s
  simp only [SectionPos.fromBlockPos, cellPos, blockToSectionCoord, SectionPos.mk.injEq]
  omega

section

variable (types : PoiTypeRegistry) (states : BlockPalette) (s : SectionPos)

/-- The fresh point of interest of a block state. -/
def freshPoi (pos : BlockPos) (state : BlockStateId) : Option PointOfInterest :=
  (types.ticketsForState state).map fun ticket => PointOfInterest.new pos ticket.1 ticket.2

def scanCell (set : PointOfInterestSet) (c : Cell) : PointOfInterestSet :=
  match freshPoi types (cellPos s c) (cellState states c) with
  | none => set
  | some poi => set.add (PackedSectionBlockPos.fromBlockPos (cellPos s c)) poi

variable {types} {states} {s}

theorem freshPoi_pos {pos : BlockPos} {state : BlockStateId} {poi : PointOfInterest} (h : freshPoi types pos state = some poi) :
    poi.pos = pos := by
  obtain ⟨ticket, _, rfl⟩ := Option.map_eq_some_iff.mp h
  rfl

theorem freshPoi_type (pos : BlockPos) (state : BlockStateId) :
    (freshPoi types pos state).map PointOfInterest.poiTypeId = types.typeIdForState state := by
  unfold freshPoi
  rw [PoiTypeRegistry.ticketsForState_eq]
  cases types.typeIdForState state <;> rfl

theorem PlacedSet.scanCell {set : PointOfInterestSet} (h : PlacedSet s set) (c : Cell) :
    PlacedSet s (scanCell types states s set c) := by
  unfold Poi.scanCell
  split
  · exact h
  · rename_i poi hpoi
    have hpos := freshPoi_pos hpoi
    exact h.add (by rw [hpos]; exact section_cellPos s c) (by rw [hpos])

theorem PlacedSet.scanCells {set : PointOfInterestSet} (h : PlacedSet s set) (cells : List Cell) :
    PlacedSet s (cells.foldl (Poi.scanCell types states s) set) := by
  induction cells generalizing set with
  | nil => exact h
  | cons c cells ih => exact ih (h.scanCell c)

/-- A scan fills the free positions of its cells. -/
theorem get_scanCells {pos : BlockPos} (hpos : SectionPos.fromBlockPos pos = s) (cells : List Cell) (set : PointOfInterestSet) :
    (cells.foldl (scanCell types states s) set).get (PackedSectionBlockPos.fromBlockPos pos) =
      (set.get (PackedSectionBlockPos.fromBlockPos pos)).or
        (if cellOf pos ∈ cells then freshPoi types pos (cellState states (cellOf pos)) else none) := by
  induction cells generalizing set with
  | nil => simp
  | cons c cells ih =>
    rw [List.foldl_cons, ih]
    by_cases hc : cellOf pos = c
    · subst hc
      rw [if_pos List.mem_cons_self]
      unfold scanCell
      rw [cellPos_cellOf hpos]
      cases hfresh : freshPoi types pos (cellState states (cellOf pos)) with
      | none => simp
      | some poi =>
        dsimp only
        rw [PointOfInterestSet.get_add, if_pos rfl]
        cases set.get (PackedSectionBlockPos.fromBlockPos pos) <;> simp
    · -- another cell is another position
      have hget : (scanCell types states s set c).get (PackedSectionBlockPos.fromBlockPos pos) =
          set.get (PackedSectionBlockPos.fromBlockPos pos) := by
        unfold scanCell
        split
        · rfl
        · rw [PointOfInterestSet.get_add, if_neg]
          intro hpacked
          have heq := pos_ext (hpos.trans (section_cellPos s c).symm) hpacked
          exact hc (by rw [heq, cellOf_cellPos])
      rw [hget]
      simp [hc]

end

namespace PointOfInterestStorage

variable (storage : PointOfInterestStorage) (types : PoiTypeRegistry)

def scanAndPopulate (states : BlockPalette) (s : SectionPos) : PointOfInterestStorage :=
  storage.putSet s (allCells.foldl (scanCell types states s) ((sectionAt storage.columns s).getD PointOfInterestSet.new))
    (storage.placed.getD.scanCells allCells)

theorem get?_scanAndPopulate (states : BlockPalette) (s : SectionPos) (q : BlockPos) :
    (storage.scanAndPopulate types states s).get? q =
      if SectionPos.fromBlockPos q = s then (storage.get? q).or (freshPoi types q (cellState states (cellOf q)))
      else storage.get? q := by
  unfold scanAndPopulate
  rw [get?_putSet]
  by_cases hq : SectionPos.fromBlockPos q = s
  · rw [if_pos hq, if_pos hq, get_scanCells hq, if_pos (mem_allCells _), get_getD]
    subst hq
    rfl
  · rw [if_neg hq, if_neg hq]

/-! ## Loading a chunk -/

/-- The check of the palette that spares most sections the scan. -/
def containsPoi : BlockPalette → Bool
  | .homogeneous state => types.isPoiState state
  | .heterogeneous data => data.palette.any fun entry => types.isPoiState entry.1
  | .building _ => true

variable {types}

/-- A section that is not scanned has no point of interest. -/
theorem freshPoi_of_not_containsPoi {states : BlockPalette} (hexact : states.Exact) (h : containsPoi types states = false)
    (pos : BlockPos) (c : Cell) : freshPoi types pos (cellState states c) = none := by
  have hnone : types.isPoiState (cellState states c) = false := by
    cases states with
    | homogeneous state => exact h
    | heterogeneous data =>
      have hmem : cellState (.heterogeneous data) c ∈ data.cube.cells :=
        List.mem_of_getElem? (Cube.cells_index data.cube c.2.2 c.1 c.2.1)
      have hkey := hexact.tallies.mem_keys.mpr (List.count_pos_iff.mpr hmem)
      obtain ⟨entry, hentry, heq⟩ := List.mem_map.mp hkey
      rw [← heq]
      simpa using List.any_eq_false.mp h entry hentry
    | building cube => cases h
  have htype : types.typeIdForState (cellState states c) = none := by simpa [PoiTypeRegistry.isPoiState] using hnone
  unfold freshPoi
  rw [PoiTypeRegistry.ticketsForState_eq, htype]
  rfl

variable (types)

/-- The sections that may hold a point of interest, with their indices. -/
def poiSections (sections : List BlockPalette) : List (BlockPalette × Nat) :=
  sections.zipIdx.filter fun entry => containsPoi types entry.1

def populatePoi (sections : List BlockPalette) (minSectionY : Int) (chunk : ChunkPos) : PointOfInterestStorage :=
  (poiSections types sections).foldl
    (fun storage entry => storage.scanAndPopulate types entry.1 ⟨chunk.x, minSectionY + entry.2, chunk.z⟩) storage

/-- The block state of a chunk's sections at a position. -/
def stateAt (sections : List BlockPalette) (minSectionY : Int) (pos : BlockPos) : Option BlockStateId :=
  if blockToSectionCoord pos.y < minSectionY then none
  else (sections[(blockToSectionCoord pos.y - minSectionY).toNat]?).map fun states => cellState states (cellOf pos)

theorem get?_foldl_scan {minSectionY : Int} {chunk : ChunkPos} (entries : List (BlockPalette × Nat))
    (hnodup : (entries.map Prod.snd).Nodup) (storage : PointOfInterestStorage) (q : BlockPos) :
    (entries.foldl (fun (storage : PointOfInterestStorage) entry =>
      storage.scanAndPopulate types entry.1 ⟨chunk.x, minSectionY + entry.2, chunk.z⟩) storage).get? q =
    (storage.get? q).or ((entries.find? fun entry =>
      decide (SectionPos.fromBlockPos q = ⟨chunk.x, minSectionY + entry.2, chunk.z⟩)).bind fun entry =>
        freshPoi types q (cellState entry.1 (cellOf q))) := by
  induction entries generalizing storage with
  | nil => simp
  | cons entry rest ih =>
    rw [List.map_cons, List.nodup_cons] at hnodup
    rw [List.foldl_cons, ih hnodup.2, get?_scanAndPopulate]
    by_cases hq : SectionPos.fromBlockPos q = ⟨chunk.x, minSectionY + entry.2, chunk.z⟩
    · -- no later section is this one
      have hrest : (rest.find? fun entry => decide (SectionPos.fromBlockPos q = ⟨chunk.x, minSectionY + entry.2, chunk.z⟩)) = none := by
        rw [List.find?_eq_none]
        intro other hother hsame
        have hy := (SectionPos.mk.inj ((of_decide_eq_true hsame).symm.trans hq)).2.1
        exact hnodup.1 (List.mem_map.mpr ⟨other, hother, by omega⟩)
      rw [if_pos hq, List.find?_cons_of_pos (by simpa using hq), hrest]
      simp
    · rw [if_neg hq, List.find?_cons_of_neg (by simpa using hq)]

/-- Loading a chunk finds the points of interest of its blocks. -/
theorem get?_populatePoi {sections : List BlockPalette} (hexact : ∀ states ∈ sections, states.Exact) (minSectionY : Int)
    (chunk : ChunkPos) (q : BlockPos) :
    (storage.populatePoi types sections minSectionY chunk).get? q =
      if (SectionPos.fromBlockPos q).chunk = chunk then
        (storage.get? q).or ((stateAt sections minSectionY q).bind (freshPoi types q))
      else storage.get? q := by
  have hnodup : ((poiSections types sections).map Prod.snd).Nodup := by
    apply (List.Sublist.map Prod.snd List.filter_sublist).nodup
    rw [List.zipIdx_map_snd]
    exact List.nodup_range'
  unfold populatePoi
  rw [get?_foldl_scan types _ hnodup]
  cases hfind : (poiSections types sections).find? fun entry =>
      decide (SectionPos.fromBlockPos q = ⟨chunk.x, minSectionY + entry.2, chunk.z⟩) with
  | some entry =>
    have hfound := List.find?_some hfind
    have hsection : SectionPos.fromBlockPos q = ⟨chunk.x, minSectionY + entry.2, chunk.z⟩ := of_decide_eq_true hfound
    have hmem := (List.mem_filter.mp (List.mem_of_find?_eq_some hfind)).1
    have hat : sections[entry.2]? = some entry.1 := List.mem_zipIdx_iff_getElem?.mp hmem
    have hy : blockToSectionCoord q.y = minSectionY + entry.2 := (SectionPos.mk.inj hsection).2.1
    have hstate : stateAt sections minSectionY q = some (cellState entry.1 (cellOf q)) := by
      unfold stateAt
      rw [if_neg (by omega), hy, show (minSectionY + (entry.2 : Int) - minSectionY).toNat = entry.2 by omega, hat]
      rfl
    rw [if_pos (by rw [hsection]; rfl), hstate]
    rfl
  | none =>
    rw [Option.bind_none, Option.or_none]
    by_cases hchunk : (SectionPos.fromBlockPos q).chunk = chunk
    · rw [if_pos hchunk]
      have hnothing : (stateAt sections minSectionY q).bind (freshPoi types q) = none := by
        unfold stateAt
        by_cases hbelow : blockToSectionCoord q.y < minSectionY
        · rw [if_pos hbelow]
          rfl
        · rw [if_neg hbelow]
          cases hat : sections[(blockToSectionCoord q.y - minSectionY).toNat]? with
          | none => rfl
          | some states =>
            -- the section was left out because its palette has no point of interest
            have hskipped : containsPoi types states = false := by
              by_contra hcontains
              have hmem : (states, (blockToSectionCoord q.y - minSectionY).toNat) ∈ poiSections types sections :=
                List.mem_filter.mpr ⟨List.mem_zipIdx_iff_getElem?.mpr hat, Bool.not_eq_false _ ▸ hcontains⟩
              refine List.find?_eq_none.mp hfind _ hmem (decide_eq_true ?_)
              subst hchunk
              unfold SectionPos.fromBlockPos SectionPos.chunk
              rw [SectionPos.mk.injEq]
              refine ⟨rfl, ?_, rfl⟩
              dsimp only
              omega
            exact freshPoi_of_not_containsPoi (hexact states (List.mem_of_getElem? hat)) hskipped q (cellOf q)
      rw [hnothing, Option.or_none]
    · rw [if_neg hchunk]

/-! ## Changes of blocks -/

def onBlockStateChange (pos : BlockPos) (oldState newState : BlockStateId) : PointOfInterestStorage :=
  let oldPoi := types.typeIdForState oldState
  let newPoi := types.typeIdForState newState
  if oldPoi = newPoi then storage
  else
    let storage := if oldPoi.isSome then storage.remove pos else storage
    match types.ticketsForState newState with
    | none => storage
    | some (typeId, ticketCount) => storage.add pos typeId ticketCount

theorem get?_onBlockStateChange_ne {pos q : BlockPos} (h : q ≠ pos) (oldState newState : BlockStateId) :
    (storage.onBlockStateChange types pos oldState newState).get? q = storage.get? q := by
  unfold onBlockStateChange
  dsimp only
  by_cases hsame : types.typeIdForState oldState = types.typeIdForState newState
  · rw [if_pos hsame]
  · rw [if_neg hsame]
    by_cases hold : (types.typeIdForState oldState).isSome
    · rw [if_pos hold]
      cases types.ticketsForState newState with
      | none => rw [get?_remove, if_neg h]
      | some ticket => rw [get?_add, if_neg h, get?_remove, if_neg h]
    · rw [if_neg hold]
      cases types.ticketsForState newState with
      | none => rfl
      | some ticket => rw [get?_add, if_neg h]

/-- Where the storage knew the old state, it knows the new one: an equal type keeps its tickets, another starts anew. -/
theorem get?_onBlockStateChange {pos : BlockPos} {oldState : BlockStateId} (newState : BlockStateId)
    (h : storage.getType pos = types.typeIdForState oldState) :
    (storage.onBlockStateChange types pos oldState newState).get? pos =
      if types.typeIdForState oldState = types.typeIdForState newState then storage.get? pos
      else freshPoi types pos newState := by
  unfold onBlockStateChange
  dsimp only
  by_cases hsame : types.typeIdForState oldState = types.typeIdForState newState
  · rw [if_pos hsame, if_pos hsame]
  · rw [if_neg hsame, if_neg hsame]
    have hcleared : (if (types.typeIdForState oldState).isSome then storage.remove pos else storage).get? pos = none := by
      by_cases hold : (types.typeIdForState oldState).isSome
      · rw [if_pos hold, get?_remove, if_pos rfl]
      · rw [if_neg hold]
        rw [Option.not_isSome_iff_eq_none.mp hold] at h
        exact Option.map_eq_none_iff.mp h
    unfold freshPoi
    cases types.ticketsForState newState with
    | none => exact hcleared
    | some ticket =>
      dsimp only
      rw [get?_add, if_pos rfl, hcleared]
      rfl

/-! ## Saved tickets -/

/-- The position is kept relative to the chunk, as a `u8`, an `i16` and a `u8`. -/
structure PersistentPoi where
  x : UInt8
  y : Int16
  z : UInt8
  freeTickets : Nat

def collectForChunk (chunk : ChunkPos) : List (BlockPos × Nat) :=
  match storage.columns.lookup chunk with
  | none => []
  | some column =>
    column.pairs.flatMap fun entry => entry.2.poisByPos.pairs.map fun poi => (poi.2.pos, poi.2.freeTickets)

def restoreTickets (chunk : ChunkPos) (tickets : List (BlockPos × Nat)) : PointOfInterestStorage :=
  tickets.foldl
    (fun storage ticket => storage.setFreeTicketsAt ⟨chunk.x, blockToSectionCoord ticket.1.y, chunk.z⟩
      (PackedSectionBlockPos.fromBlockPos ticket.1) ticket.2)
    storage

def PersistentPoi.save (chunk : ChunkPos) (ticket : BlockPos × Nat) : PersistentPoi where
  x := UInt8.ofInt (ticket.1.x - chunk.x * 16)
  y := Int16.ofInt ticket.1.y
  z := UInt8.ofInt (ticket.1.z - chunk.z * 16)
  freeTickets := ticket.2

def PersistentPoi.load (chunk : ChunkPos) (poi : PersistentPoi) : BlockPos × Nat :=
  (⟨chunk.x * 16 + poi.x.toNat, poi.y.toInt, chunk.z * 16 + poi.z.toNat⟩, poi.freeTickets)

theorem PersistentPoi.load_save {chunk : ChunkPos} {ticket : BlockPos × Nat}
    (hchunk : (SectionPos.fromBlockPos ticket.1).chunk = chunk) (hlow : -2 ^ 15 ≤ ticket.1.y) (hhigh : ticket.1.y < 2 ^ 15) :
    (PersistentPoi.save chunk ticket).load chunk = ticket := by
  obtain ⟨hx, hz⟩ := Light.ChunkPos.mk.inj hchunk
  have hcoord : ∀ a c : Int, a / 16 = c → c * 16 + ((UInt8.ofInt (a - c * 16)).toNat : Int) = a := by
    intro a c h
    unfold UInt8.ofInt
    rw [UInt8.toNat_ofNat']
    omega
  have hpos : (PersistentPoi.save chunk ticket).load chunk = (⟨ticket.1.x, ticket.1.y, ticket.1.z⟩, ticket.2) := by
    unfold PersistentPoi.save PersistentPoi.load
    dsimp only
    rw [hcoord _ _ hx, hcoord _ _ hz, Int16.toInt_ofInt_of_le hlow hhigh]
  exact hpos

variable {storage}

theorem mem_collectForChunk {chunk : ChunkPos} {pos : BlockPos} {n : Nat} : (pos, n) ∈ storage.collectForChunk chunk ↔
    (SectionPos.fromBlockPos pos).chunk = chunk ∧ ∃ poi, storage.get? pos = some poi ∧ poi.freeTickets = n := by
  unfold collectForChunk
  cases hcolumn : storage.columns.lookup chunk with
  | none =>
    refine iff_of_false List.not_mem_nil ?_
    intro h
    obtain ⟨hchunk, poi, hget, _⟩ := h
    obtain ⟨set, hset, _⟩ := Option.bind_eq_some_iff.mp hget
    unfold sectionAt at hset
    rw [hchunk, hcolumn] at hset
    cases hset
  | some column =>
    dsimp only
    rw [List.mem_flatMap]
    constructor
    · intro h
      obtain ⟨⟨y, set⟩, hentry, hmem⟩ := h
      obtain ⟨⟨p, poi⟩, hpoi, heq⟩ := List.mem_map.mp hmem
      cases heq
      have hsection : sectionAt storage.columns ⟨chunk.x, y, chunk.z⟩ = some set :=
        Option.bind_eq_some_iff.mpr ⟨column, hcolumn, AssocList.mem_pairs.mp hentry⟩
      have hget : set.get p = some poi := AssocList.mem_pairs.mp hpoi
      refine ⟨?_, poi, get?_of_get hsection hget, rfl⟩
      rw [(storage.placed _ _ _ _ hsection hget).1]
      rfl
    · intro h
      obtain ⟨rfl, poi, hget, rfl⟩ := h
      have hpos := get?_pos hget
      obtain ⟨set, hset, hget⟩ := Option.bind_eq_some_iff.mp hget
      unfold sectionAt at hset
      rw [hcolumn, Option.bind_some] at hset
      exact ⟨((SectionPos.fromBlockPos pos).y, set), AssocList.mem_pairs.mpr hset,
        List.mem_map.mpr ⟨(PackedSectionBlockPos.fromBlockPos pos, poi), AssocList.mem_pairs.mpr hget, by rw [hpos]⟩⟩

/-- Restoring writes the tickets of each listed position of the chunk. -/
theorem get?_restoreTickets (storage : PointOfInterestStorage) {chunk : ChunkPos} {tickets : List (BlockPos × Nat)}
    (hchunk : ∀ ticket ∈ tickets, (SectionPos.fromBlockPos ticket.1).chunk = chunk) (q : BlockPos) :
    (storage.restoreTickets chunk tickets).get? q = storage.get? q ∧ q ∉ tickets.map Prod.fst ∨
      ∃ n, (q, n) ∈ tickets ∧ (storage.restoreTickets chunk tickets).get? q =
        (storage.get? q).map fun poi => { poi with freeTickets := n } := by
  unfold restoreTickets
  induction tickets generalizing storage with
  | nil => exact Or.inl ⟨rfl, List.not_mem_nil⟩
  | cons ticket rest ih =>
    have hstep : storage.setFreeTicketsAt ⟨chunk.x, blockToSectionCoord ticket.1.y, chunk.z⟩
        (PackedSectionBlockPos.fromBlockPos ticket.1) ticket.2 = storage.setFreeTickets ticket.1 ticket.2 := by
      have h := hchunk ticket List.mem_cons_self
      subst h
      rfl
    rw [List.foldl_cons, hstep]
    rcases ih (storage.setFreeTickets ticket.1 ticket.2)
      (fun t ht => hchunk t (List.mem_cons_of_mem ticket ht)) with ⟨hrest, hnot⟩ | ⟨n, hn, hrest⟩
    · rw [hrest, get?_setFreeTickets]
      by_cases hq : q = ticket.1
      · subst hq
        exact Or.inr ⟨ticket.2, List.mem_cons_self, if_pos rfl⟩
      · rw [if_neg hq]
        exact Or.inl ⟨rfl, by simp [hq, hnot]⟩
    · refine Or.inr ⟨n, List.mem_cons_of_mem ticket hn, ?_⟩
      rw [hrest, get?_setFreeTickets]
      by_cases hq : q = ticket.1
      · subst hq
        rw [if_pos rfl, Option.map_map]
        rfl
      · rw [if_neg hq]

end PointOfInterestStorage
end Foton.Poi

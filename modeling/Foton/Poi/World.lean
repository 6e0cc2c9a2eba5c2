import Foton.Heightmap.Runs
import Foton.Lib.Run
import Foton.Poi.Populate
import Foton.Poi.Queries

/-!
# Runs of a world with points of interest

A block update writes the block, runs the callbacks of the behaviors, reads the
block back, runs the updates of the neighbors and reports the change last. The
callbacks and neighbor updates write blocks themselves, so the updates under
way form a stack.
-/

namespace Foton.Poi

open Light (blockToSectionCoord)
open PointOfInterestStorage (stateAt PersistentPoi)

/-- The sections of a dimension. Their block coordinates fit an `i16`. -/
structure Heights where
  minSectionY : Int
  sectionCount : Nat
  low : -2 ^ 11 ≤ minSectionY
  high : minSectionY + sectionCount ≤ 2 ^ 11

def Heights.Within (heights : Heights) (pos : BlockPos) : Prop :=
  heights.minSectionY ≤ blockToSectionCoord pos.y ∧ blockToSectionCoord pos.y < heights.minSectionY + heights.sectionCount

theorem Heights.Within.y {heights : Heights} {pos : BlockPos} (h : heights.Within pos) : -2 ^ 15 ≤ pos.y ∧ pos.y < 2 ^ 15 := by
  obtain ⟨hlow, hhigh⟩ := h
  have hmin := heights.low
  have hmax := heights.high
  unfold blockToSectionCoord at hlow hhigh
  omega

abbrev LoadedSection : Type := { states : BlockPalette // states.Exact }

namespace LoadedSection

variable (s : LoadedSection) (c : Cell) (state : BlockStateId)

theorem set_isSome : (s.1.set c.2.2 c.1 c.2.1 state).isSome = true := by
  obtain ⟨states, hset, _⟩ := PalettedContainer.set_ok s.2 ChunkSection.volume_limit.2 c.2.2 c.1 c.2.1 state
  rw [hset]
  rfl

def set : LoadedSection where
  val := ((s.1.set c.2.2 c.1 c.2.1 state).get (set_isSome s c state)).2
  property := by
    obtain ⟨states, hset, hexact, _⟩ := PalettedContainer.set_ok s.2 ChunkSection.volume_limit.2 c.2.2 c.1 c.2.1 state
    simpa [hset] using hexact

theorem cellState_set (c' : Cell) : cellState (s.set c state).1 c' = if c' = c then state else cellState s.1 c' := by
  obtain ⟨states, hset, _, _, hcells⟩ := PalettedContainer.set_ok s.2 ChunkSection.volume_limit.2 c.2.2 c.1 c.2.1 state
  have hval : (s.set c state).1 = states := by simp [set, hset]
  unfold cellState
  rw [hval, get_of_cells_set hcells]
  obtain ⟨y, z, x⟩ := c
  obtain ⟨y', z', x'⟩ := c'
  by_cases h : x' = x ∧ y' = y ∧ z' = z
  · rw [if_pos h, if_pos (by simp [h])]
  · rw [if_neg h, if_neg]
    intro heq
    simp only [Prod.mk.injEq] at heq
    exact h ⟨heq.2.2, heq.1, heq.2.1⟩

end LoadedSection

/-- The block states of the sections of a chunk. -/
def states (sections : List LoadedSection) : List BlockPalette := sections.map Subtype.val

def writeState (heights : Heights) (sections : List LoadedSection) (pos : BlockPos) (state : BlockStateId) : List LoadedSection :=
  sections.modify (blockToSectionCoord pos.y - heights.minSectionY).toNat fun s => s.set (cellOf pos) state

section

variable {heights : Heights} {sections : List LoadedSection} {pos q : BlockPos}

theorem within_of_stateAt {old : BlockStateId} (hlength : sections.length = heights.sectionCount)
    (h : stateAt (states sections) heights.minSectionY pos = some old) : heights.Within pos := by
  unfold stateAt states at h
  by_cases hbelow : blockToSectionCoord pos.y < heights.minSectionY
  · rw [if_pos hbelow] at h
    cases h
  · rw [if_neg hbelow] at h
    obtain ⟨palette, hat, _⟩ := Option.map_eq_some_iff.mp h
    have hlt := (List.getElem?_eq_some_iff.mp hat).1
    rw [List.length_map, hlength] at hlt
    exact ⟨not_lt.mp hbelow, by omega⟩

theorem stateAt_writeState {old : BlockStateId} (state : BlockStateId)
    (h : stateAt (states sections) heights.minSectionY pos = some old)
    (hchunk : (SectionPos.fromBlockPos q).chunk = (SectionPos.fromBlockPos pos).chunk) :
    stateAt (states (writeState heights sections pos state)) heights.minSectionY q =
      if q = pos then some state else stateAt (states sections) heights.minSectionY q := by
  unfold stateAt at h ⊢
  by_cases hpos : blockToSectionCoord pos.y < heights.minSectionY
  · rw [if_pos hpos] at h
    cases h
  rw [if_neg hpos] at h
  obtain ⟨palette, hat, _⟩ := Option.map_eq_some_iff.mp h
  unfold states at hat
  rw [List.getElem?_map] at hat
  obtain ⟨s, hs, _⟩ := Option.map_eq_some_iff.mp hat
  by_cases hq : blockToSectionCoord q.y < heights.minSectionY
  · rw [if_pos hq, if_pos hq, if_neg]
    intro heq
    rw [heq] at hq
    exact hpos hq
  rw [if_neg hq, if_neg hq]
  unfold states writeState
  rw [List.getElem?_map, List.getElem?_map]
  by_cases hindex : blockToSectionCoord q.y = blockToSectionCoord pos.y
  · rw [hindex, List.getElem?_modify_eq, hs]
    simp only [Option.map_some, Option.map_eq_map, LoadedSection.cellState_set]
    have hsection : SectionPos.fromBlockPos q = SectionPos.fromBlockPos pos := SectionPos.eq_iff.mpr ⟨hchunk, hindex⟩
    by_cases hcell : cellOf q = cellOf pos
    · have heq : q = pos := by rw [← cellPos_cellOf hsection, hcell, cellPos_cellOf rfl]
      rw [if_pos hcell, if_pos heq]
    · rw [if_neg hcell, if_neg fun heq => hcell (congrArg _ heq)]
  · have hne : ¬ (blockToSectionCoord pos.y - heights.minSectionY).toNat = (blockToSectionCoord q.y - heights.minSectionY).toNat := by
      omega
    rw [List.getElem?_modify_ne _ _ hne, if_neg]
    intro heq
    exact hindex (congrArg _ (congrArg Light.BlockPos.y heq))

end

/-! ## The world -/

/-- An update that has written its block and has not reported it yet. -/
structure PendingUpdate where
  pos : BlockPos
  oldState : BlockStateId
  newState : BlockStateId
  checked : Bool

structure PoiWorld where
  chunks : AssocList ChunkPos (List LoadedSection)
  poiStorage : PointOfInterestStorage
  pending : List PendingUpdate
  saved : AssocList ChunkPos (List LoadedSection × List PersistentPoi)

inductive PoiEvent where
  | generate (chunk : ChunkPos) (sections : List LoadedSection)
  | load (chunk : ChunkPos) (sections : List LoadedSection)
  | write (pos : BlockPos) (state : BlockStateId)
  | check
  | report
  | save (chunk : ChunkPos)
  | unload (chunk : ChunkPos)
  | reserve (pos : BlockPos)
  | release (pos : BlockPos)
  | take (typePredicate : Nat → Bool) (filter : Nat → BlockPos → Bool) (center : BlockPos) (radius : Int32)

def PoiEvent.OnTickets : PoiEvent → Prop
  | reserve _ | release _ | take .. => True
  | _ => False

namespace PoiWorld

variable (heights : Heights) (types : PoiTypeRegistry) (w : PoiWorld)

def empty : PoiWorld := ⟨∅, PointOfInterestStorage.new, [], ∅⟩

def getBlockState (pos : BlockPos) : Option BlockStateId :=
  (w.chunks.lookup (SectionPos.fromBlockPos pos).chunk).bind fun sections => stateAt (states sections) heights.minSectionY pos

/-- A chunk becomes full: its points of interest are found. -/
def addChunk (chunk : ChunkPos) (sections : List LoadedSection) : PoiWorld :=
  { w with
    chunks := w.chunks.insert chunk sections
    poiStorage := w.poiStorage.populatePoi types (states sections) heights.minSectionY chunk }

/-- `None` where the event cannot happen. -/
def exec (w : PoiWorld) : PoiEvent → Option PoiWorld
  | .generate chunk sections =>
    if (w.chunks.lookup chunk).isSome ∨ sections.length ≠ heights.sectionCount then none
    else some (w.addChunk heights types chunk sections)
  | .load chunk sections =>
    match w.saved.lookup chunk with
    | none => none
    | some (blocks, pois) =>
      if (w.chunks.lookup chunk).isSome ∨ (states sections).map PalettedContainer.cells ≠ (states blocks).map PalettedContainer.cells then none
      else
        let w := w.addChunk heights types chunk sections
        some { w with poiStorage := w.poiStorage.restoreTickets chunk (pois.map (PersistentPoi.load chunk)) }
  | .write pos state =>
    match w.chunks.lookup (SectionPos.fromBlockPos pos).chunk with
    | none => none
    | some sections =>
      match stateAt (states sections) heights.minSectionY pos with
      | none => none
      | some old =>
        if old = state then some w
        else some { w with
          chunks := w.chunks.insert (SectionPos.fromBlockPos pos).chunk (writeState heights sections pos state)
          pending := ⟨pos, old, state, false⟩ :: w.pending }
  | .check =>
    match w.pending with
    | [] => none
    | update :: rest =>
      if update.checked then none
      -- a callback has put another block there: the update is abandoned
      else if w.getBlockState heights update.pos ≠ some update.newState then some { w with pending := rest }
      else some { w with pending := { update with checked := true } :: rest }
  | .report =>
    match w.pending with
    | [] => none
    | update :: rest =>
      if update.checked = false then none
      else some { w with
        poiStorage := w.poiStorage.onBlockStateChange types update.pos update.oldState update.newState
        pending := rest }
  | .save chunk =>
    match w.chunks.lookup chunk with
    | none => none
    | some sections => some { w with
        saved := w.saved.insert chunk
          (sections, (w.poiStorage.collectForChunk chunk).map (PersistentPoi.save chunk)) }
  | .unload chunk =>
    if (w.chunks.lookup chunk).isNone ∨ (w.pending.any fun update => decide ((SectionPos.fromBlockPos update.pos).chunk = chunk)) then none
    else some { w with chunks := w.chunks.erase chunk, poiStorage := w.poiStorage.removeChunk chunk }
  | .reserve pos => some { w with poiStorage := (w.poiStorage.reserveTicket pos).1 }
  | .release pos => some { w with poiStorage := (w.poiStorage.releaseTicket types pos).1 }
  | .take typePredicate filter center radius =>
    some { w with poiStorage := (w.poiStorage.take types typePredicate center radius filter).1 }

def Step (w : PoiWorld) (event : PoiEvent) (w' : PoiWorld) : Prop := w.exec heights types event = some w'

/-! ## Tickets -/

/-- Tickets are taken and given back within the count of the type. -/
def TicketStep (storage storage' : PointOfInterestStorage) : Prop :=
  ∀ q, storage'.get? q = storage.get? q ∨ ∃ poi n, storage.get? q = some poi ∧
    storage'.get? q = some { poi with freeTickets := n } ∧ (n ≤ poi.freeTickets ∨ n ≤ types.maxTicketsFor poi.poiTypeId)

variable {heights} {types} {w} {w' : PoiWorld} {storage storage' : PointOfInterestStorage} {p q pos : BlockPos}

theorem TicketStep.set {poi : PointOfInterest} (hget : storage.get? pos = some poi) {n : Nat}
    (hn : n ≤ poi.freeTickets ∨ n ≤ types.maxTicketsFor poi.poiTypeId) :
    TicketStep types storage (storage.setFreeTickets pos n) := by
  intro q
  rw [PointOfInterestStorage.get?_setFreeTickets]
  by_cases hq : q = pos
  · rw [if_pos hq, hq, hget]
    exact Or.inr ⟨poi, n, rfl, rfl, hn⟩
  · exact Or.inl (if_neg hq)

theorem TicketStep.refl : TicketStep types storage storage := fun _ => Or.inl rfl

theorem ticketStep_reserve : TicketStep types storage (storage.reserveTicket pos).1 := by
  unfold PointOfInterestStorage.reserveTicket
  cases hget : storage.get? pos with
  | none => exact TicketStep.refl
  | some poi =>
    apply TicketStep.set hget
    unfold PointOfInterest.reserveTicket
    by_cases hfree : 0 < poi.freeTickets
    · rw [if_pos hfree]
      exact Or.inl (Nat.sub_le _ _)
    · rw [if_neg hfree]
      exact Or.inl le_rfl

theorem ticketStep_release : TicketStep types storage (storage.releaseTicket types pos).1 := by
  unfold PointOfInterestStorage.releaseTicket
  cases hget : storage.get? pos with
  | none => exact TicketStep.refl
  | some poi =>
    apply TicketStep.set hget
    unfold PointOfInterest.releaseTicket
    by_cases hfree : poi.freeTickets < types.maxTicketsFor poi.poiTypeId
    · rw [if_pos hfree]
      exact Or.inr hfree
    · rw [if_neg hfree]
      exact Or.inl le_rfl

theorem ticketStep_take (typePredicate : Nat → Bool) (filter : Nat → BlockPos → Bool) (center : BlockPos) (radius : Int32) :
    TicketStep types storage (storage.take types typePredicate center radius filter).1 := by
  unfold PointOfInterestStorage.take
  dsimp only
  split
  · exact TicketStep.refl
  · exact ticketStep_reserve

theorem TicketStep.getType (h : TicketStep types storage storage') (q : BlockPos) : storage'.getType q = storage.getType q := by
  unfold PointOfInterestStorage.getType
  rcases h q with heq | ⟨poi, n, hold, hnew, _⟩
  · rw [heq]
  · rw [hold, hnew]
    rfl

theorem TicketStep.bounded (h : TicketStep types storage storage')
    (hbound : ∀ poi, storage.get? q = some poi → poi.freeTickets ≤ types.maxTicketsFor poi.poiTypeId)
    {poi : PointOfInterest} (hget : storage'.get? q = some poi) : poi.freeTickets ≤ types.maxTicketsFor poi.poiTypeId := by
  rcases h q with heq | ⟨old, n, hold, hnew, hn⟩
  · exact hbound poi (heq ▸ hget)
  · rw [hnew] at hget
    cases hget
    exact hn.elim (fun hn => hn.trans (hbound old hold)) id

theorem TicketStep.isSome (h : TicketStep types storage storage') (hget : (storage'.get? q).isSome) : (storage.get? q).isSome := by
  rcases h q with heq | ⟨poi, n, hold, _, _⟩
  · rw [← heq]
    exact hget
  · rw [hold]
    rfl

theorem freshPoi_bounded {state : BlockStateId} {poi : PointOfInterest} (h : freshPoi types pos state = some poi) :
    poi.freeTickets ≤ types.maxTicketsFor poi.poiTypeId := by
  unfold freshPoi at h
  rw [PoiTypeRegistry.ticketsForState_eq, Option.map_map] at h
  obtain ⟨t, _, rfl⟩ := Option.map_eq_some_iff.mp h
  exact le_rfl

/-! ## What an event can do -/

/-- The cases of `exec`, with what held before each. -/
inductive Moves (heights : Heights) (types : PoiTypeRegistry) (w : PoiWorld) : PoiEvent → PoiWorld → Prop
  | generate {chunk : ChunkPos} {sections : List LoadedSection} (hnew : w.chunks.lookup chunk = none)
      (hlength : sections.length = heights.sectionCount) :
      Moves heights types w (.generate chunk sections) (w.addChunk heights types chunk sections)
  | load {chunk : ChunkPos} {sections blocks : List LoadedSection} {pois : List PersistentPoi}
      (hsaved : w.saved.lookup chunk = some (blocks, pois)) (hnew : w.chunks.lookup chunk = none)
      (hcells : (states sections).map PalettedContainer.cells = (states blocks).map PalettedContainer.cells) :
      Moves heights types w (.load chunk sections) { w.addChunk heights types chunk sections with
        poiStorage := (w.addChunk heights types chunk sections).poiStorage.restoreTickets chunk
          (pois.map (PersistentPoi.load chunk)) }
  | unchanged {pos : BlockPos} {state : BlockStateId} (hstate : w.getBlockState heights pos = some state) :
      Moves heights types w (.write pos state) w
  | write {pos : BlockPos} {state old : BlockStateId} {sections : List LoadedSection}
      (hlookup : w.chunks.lookup (SectionPos.fromBlockPos pos).chunk = some sections)
      (hold : stateAt (states sections) heights.minSectionY pos = some old) (hne : old ≠ state) :
      Moves heights types w (.write pos state) { w with
        chunks := w.chunks.insert (SectionPos.fromBlockPos pos).chunk (writeState heights sections pos state)
        pending := ⟨pos, old, state, false⟩ :: w.pending }
  | abandon {update : PendingUpdate} {rest : List PendingUpdate} (hpending : w.pending = update :: rest)
      (hunchecked : update.checked = false) (hstate : w.getBlockState heights update.pos ≠ some update.newState) :
      Moves heights types w .check { w with pending := rest }
  | check {update : PendingUpdate} {rest : List PendingUpdate} (hpending : w.pending = update :: rest)
      (hunchecked : update.checked = false) (hstate : w.getBlockState heights update.pos = some update.newState) :
      Moves heights types w .check { w with pending := { update with checked := true } :: rest }
  | report {update : PendingUpdate} {rest : List PendingUpdate} (hpending : w.pending = update :: rest)
      (hchecked : update.checked = true) : Moves heights types w .report { w with
        poiStorage := w.poiStorage.onBlockStateChange types update.pos update.oldState update.newState
        pending := rest }
  | save {chunk : ChunkPos} {sections : List LoadedSection} (hlookup : w.chunks.lookup chunk = some sections) :
      Moves heights types w (.save chunk) { w with
        saved := w.saved.insert chunk
          (sections, (w.poiStorage.collectForChunk chunk).map (PersistentPoi.save chunk)) }
  | unload {chunk : ChunkPos} (hloaded : w.chunks.lookup chunk ≠ none)
      (hpending : ∀ update ∈ w.pending, (SectionPos.fromBlockPos update.pos).chunk ≠ chunk) :
      Moves heights types w (.unload chunk) { w with
        chunks := w.chunks.erase chunk
        poiStorage := w.poiStorage.removeChunk chunk }
  | tickets {event : PoiEvent} {storage : PointOfInterestStorage} (hevent : event.OnTickets)
      (hstep : TicketStep types w.poiStorage storage) :
      Moves heights types w event { w with poiStorage := storage }

theorem Step.moves {event : PoiEvent} (h : Step heights types w event w') : Moves heights types w event w' := by
  unfold Step exec at h
  cases event with
  | generate chunk sections =>
    dsimp only at h
    split at h
    · cases h
    · rename_i hguard
      rw [not_or, not_not, Option.not_isSome_iff_eq_none] at hguard
      cases h
      exact .generate hguard.1 hguard.2
  | load chunk sections =>
    dsimp only at h
    split at h
    · cases h
    · rename_i blocks pois hsaved
      split at h
      · cases h
      · rename_i hguard
        rw [not_or, not_not, Option.not_isSome_iff_eq_none] at hguard
        cases h
        exact .load hsaved hguard.1 hguard.2
  | write pos state =>
    dsimp only at h
    split at h
    · cases h
    · rename_i sections hlookup
      split at h
      · cases h
      · rename_i old hold
        split at h
        · rename_i heq
          cases h
          exact .unchanged (Option.bind_eq_some_iff.mpr ⟨sections, hlookup, heq ▸ hold⟩)
        · rename_i hne
          cases h
          exact .write hlookup hold hne
  | check =>
    dsimp only at h
    split at h
    · cases h
    · rename_i update rest hpending
      split at h
      · cases h
      · rename_i hunchecked
        rw [Bool.not_eq_true] at hunchecked
        split at h
        · rename_i hstate
          cases h
          exact .abandon hpending hunchecked hstate
        · rename_i hstate
          cases h
          exact .check hpending hunchecked (not_not.mp hstate)
  | report =>
    dsimp only at h
    split at h
    · cases h
    · rename_i update rest hpending
      split at h
      · cases h
      · rename_i hchecked
        cases h
        exact .report hpending (Bool.not_eq_false _ ▸ hchecked)
  | save chunk =>
    dsimp only at h
    split at h
    · cases h
    · rename_i sections hlookup
      cases h
      exact .save hlookup
  | unload chunk =>
    dsimp only at h
    split at h
    · cases h
    · rename_i hguard
      rw [not_or, Option.isNone_iff_eq_none, Bool.not_eq_true, List.any_eq_false] at hguard
      cases h
      exact .unload hguard.1 fun update hmem hc => hguard.2 update hmem (decide_eq_true hc)
  | reserve pos =>
    cases h
    exact .tickets trivial ticketStep_reserve
  | release pos =>
    cases h
    exact .tickets trivial ticketStep_release
  | take typePredicate filter center radius =>
    cases h
    exact .tickets trivial (ticketStep_take typePredicate filter center radius)

/-! ## What holds everywhere -/

/-- What is kept, saved and under way lies within the heights and the right chunk. -/
structure Sane (heights : Heights) (w : PoiWorld) : Prop where
  lengths : ∀ c sections, w.chunks.lookup c = some sections → sections.length = heights.sectionCount
  savedLengths : ∀ c blocks pois, w.saved.lookup c = some (blocks, pois) → blocks.length = heights.sectionCount
  pendingWithin : ∀ update ∈ w.pending, heights.Within update.pos
  within : ∀ q, (w.poiStorage.get? q).isSome → heights.Within q
  savedChunk : ∀ c blocks pois, w.saved.lookup c = some (blocks, pois) → ∀ poi ∈ pois,
    (SectionPos.fromBlockPos (PersistentPoi.load c poi).1).chunk = c

theorem states_exact (sections : List LoadedSection) : ∀ palette ∈ states sections, palette.Exact := by
  intro palette hmem
  obtain ⟨s, _, rfl⟩ := List.mem_map.mp hmem
  exact s.2

theorem sane_empty : Sane heights empty where
  lengths := by simp [empty]
  savedLengths := by simp [empty]
  pendingWithin := by simp [empty]
  within := by simp [empty]
  savedChunk := by simp [empty]

theorem Sane.addChunk (h : Sane heights w) {chunk : ChunkPos} {sections : List LoadedSection}
    (hlength : sections.length = heights.sectionCount) : Sane heights (w.addChunk heights types chunk sections) where
  lengths := by
    intro c sections' hlookup
    unfold PoiWorld.addChunk at hlookup
    rw [AssocList.lookup_insert] at hlookup
    by_cases hc : c = chunk
    · rw [if_pos hc] at hlookup
      cases hlookup
      exact hlength
    · rw [if_neg hc] at hlookup
      exact h.lengths c sections' hlookup
  savedLengths := h.savedLengths
  pendingWithin := h.pendingWithin
  within := by
    intro q hq
    unfold PoiWorld.addChunk at hq
    rw [PointOfInterestStorage.get?_populatePoi _ _ (states_exact sections)] at hq
    by_cases hchunk : (SectionPos.fromBlockPos q).chunk = chunk
    · rw [if_pos hchunk] at hq
      cases hold : w.poiStorage.get? q with
      | some poi => exact h.within q (by rw [hold]; rfl)
      | none =>
        rw [hold, Option.none_or] at hq
        obtain ⟨poi, hpoi⟩ := Option.isSome_iff_exists.mp hq
        obtain ⟨state, hstate, _⟩ := Option.bind_eq_some_iff.mp hpoi
        exact within_of_stateAt hlength hstate
    · rw [if_neg hchunk] at hq
      exact h.within q hq
  savedChunk := h.savedChunk

theorem Sane.tickets (h : Sane heights w) (hstep : TicketStep types w.poiStorage storage') :
    Sane heights { w with poiStorage := storage' } where
  lengths := h.lengths
  savedLengths := h.savedLengths
  pendingWithin := h.pendingWithin
  within := fun q hq => h.within q (hstep.isSome hq)
  savedChunk := h.savedChunk

theorem restoreTickets_isSome {chunk : ChunkPos} {tickets : List (BlockPos × Nat)}
    (hchunk : ∀ ticket ∈ tickets, (SectionPos.fromBlockPos ticket.1).chunk = chunk)
    (hget : ((storage.restoreTickets chunk tickets).get? q).isSome) : (storage.get? q).isSome := by
  rcases PointOfInterestStorage.get?_restoreTickets storage hchunk q with ⟨heq, _⟩ | ⟨n, _, heq⟩
  · rw [← heq]
    exact hget
  · rw [heq, Option.isSome_map] at hget
    exact hget

theorem load_chunk {chunk : ChunkPos} {pois : List PersistentPoi}
    (hchunk : ∀ poi ∈ pois, (SectionPos.fromBlockPos (PersistentPoi.load chunk poi).1).chunk = chunk) :
    ∀ ticket ∈ pois.map (PersistentPoi.load chunk), (SectionPos.fromBlockPos ticket.1).chunk = chunk := by
  intro ticket hmem
  obtain ⟨poi, hpoi, rfl⟩ := List.mem_map.mp hmem
  exact hchunk poi hpoi

theorem load_collected (h : Sane heights w) {chunk : ChunkPos} {ticket : BlockPos × Nat}
    (hticket : ticket ∈ w.poiStorage.collectForChunk chunk) :
    PersistentPoi.load chunk (PersistentPoi.save chunk ticket) = ticket := by
  obtain ⟨hchunk, poi, hget, _⟩ := PointOfInterestStorage.mem_collectForChunk.mp hticket
  have hy := (h.within ticket.1 (by rw [hget]; rfl)).y
  exact PersistentPoi.load_save hchunk hy.1 hy.2

theorem Sane.step {event : PoiEvent} (h : Sane heights w) (hstep : Moves heights types w event w') : Sane heights w' := by
  cases hstep with
  | generate hnew hlength => exact h.addChunk hlength
  | @load chunk sections blocks pois hsaved hnew hcells =>
    have hlength : sections.length = heights.sectionCount := by
      have heq := congrArg List.length hcells
      simp only [states, List.length_map] at heq
      rw [heq]
      exact h.savedLengths chunk blocks pois hsaved
    have hadd : Sane heights (w.addChunk heights types chunk sections) := h.addChunk hlength
    exact ⟨hadd.lengths, hadd.savedLengths, hadd.pendingWithin,
      fun q hq => hadd.within q (restoreTickets_isSome (load_chunk (h.savedChunk chunk blocks pois hsaved)) hq),
      hadd.savedChunk⟩
  | unchanged => exact h
  | @write pos state old sections hlookup hold hne =>
    refine ⟨?_, h.savedLengths, ?_, h.within, h.savedChunk⟩
    · intro c sections' hlookup'
      dsimp only at hlookup'
      rw [AssocList.lookup_insert] at hlookup'
      by_cases hc : c = (SectionPos.fromBlockPos pos).chunk
      · rw [if_pos hc] at hlookup'
        cases hlookup'
        unfold writeState
        rw [List.length_modify]
        exact h.lengths _ sections hlookup
      · rw [if_neg hc] at hlookup'
        exact h.lengths c sections' hlookup'
    · intro update hmem
      rcases List.mem_cons.mp hmem with heq | hmem
      · rw [heq]
        exact within_of_stateAt (h.lengths _ sections hlookup) hold
      · exact h.pendingWithin update hmem
  | @abandon update rest hpending hunchecked hstate =>
    exact ⟨h.lengths, h.savedLengths, fun u hu => h.pendingWithin u (hpending ▸ List.mem_cons_of_mem update hu), h.within,
      h.savedChunk⟩
  | @check update rest hpending hunchecked hstate =>
    refine ⟨h.lengths, h.savedLengths, ?_, h.within, h.savedChunk⟩
    intro u hu
    rcases List.mem_cons.mp hu with heq | hu
    · rw [heq]
      exact h.pendingWithin update (hpending ▸ List.mem_cons_self)
    · exact h.pendingWithin u (hpending ▸ List.mem_cons_of_mem update hu)
  | @report update rest hpending hchecked =>
    refine ⟨h.lengths, h.savedLengths, fun u hu => h.pendingWithin u (hpending ▸ List.mem_cons_of_mem update hu), ?_,
      h.savedChunk⟩
    intro q hq
    by_cases hpos : q = update.pos
    · rw [hpos]
      exact h.pendingWithin update (hpending ▸ List.mem_cons_self)
    · dsimp only at hq
      rw [PointOfInterestStorage.get?_onBlockStateChange_ne _ _ hpos] at hq
      exact h.within q hq
  | @save chunk sections hlookup =>
    refine ⟨h.lengths, ?_, h.pendingWithin, h.within, ?_⟩
    · intro c blocks pois hsaved
      dsimp only at hsaved
      rw [AssocList.lookup_insert] at hsaved
      by_cases hc : c = chunk
      · rw [if_pos hc] at hsaved
        cases hsaved
        exact h.lengths chunk _ hlookup
      · rw [if_neg hc] at hsaved
        exact h.savedLengths c blocks pois hsaved
    · intro c blocks pois hsaved poi hpoi
      dsimp only at hsaved
      rw [AssocList.lookup_insert] at hsaved
      by_cases hc : c = chunk
      · rw [if_pos hc] at hsaved
        cases hsaved
        obtain ⟨ticket, hticket, rfl⟩ := List.mem_map.mp hpoi
        rw [hc, load_collected h hticket]
        exact (PointOfInterestStorage.mem_collectForChunk.mp hticket).1
      · rw [if_neg hc] at hsaved
        exact h.savedChunk c blocks pois hsaved poi hpoi
  | @unload chunk hloaded hpending =>
    refine ⟨?_, h.savedLengths, h.pendingWithin, ?_, h.savedChunk⟩
    · intro c sections hlookup
      dsimp only at hlookup
      rw [AssocList.lookup_erase] at hlookup
      by_cases hc : c = chunk
      · rw [if_pos hc] at hlookup
        cases hlookup
      · rw [if_neg hc] at hlookup
        exact h.lengths c sections hlookup
    · intro q hq
      dsimp only at hq
      rw [PointOfInterestStorage.get?_removeChunk] at hq
      by_cases hc : (SectionPos.fromBlockPos q).chunk = chunk
      · rw [if_pos hc] at hq
        cases hq
      · rw [if_neg hc] at hq
        exact h.within q hq
  | tickets hevent hstep => exact h.tickets hstep

/-! ## What holds at a position -/

def updatesAt (w : PoiWorld) (p : BlockPos) : List PendingUpdate := w.pending.filter fun update => decide (update.pos = p)

/-- No block is written at `p`, nor its chunk saved, while an update of `p` is under way. -/
def Unnested (p : BlockPos) (w : PoiWorld) : PoiEvent → Prop
  | .write pos _ => pos = p → w.updatesAt p = []
  | .save chunk => (SectionPos.fromBlockPos p).chunk = chunk → w.updatesAt p = []
  | _ => True

/-- The storage knows the block at `p`, or the one before the update under way. -/
structure Follows (heights : Heights) (types : PoiTypeRegistry) (p : BlockPos) (w : PoiWorld) : Prop where
  settled : w.updatesAt p = [] → w.poiStorage.getType p = (w.getBlockState heights p).bind types.typeIdForState
  updating : ∀ update ∈ w.updatesAt p, w.poiStorage.getType p = types.typeIdForState update.oldState ∧
    w.getBlockState heights p = some update.newState
  once : (w.updatesAt p).length ≤ 1
  bounded : ∀ poi, w.poiStorage.get? p = some poi → poi.freeTickets ≤ types.maxTicketsFor poi.poiTypeId
  savedBounded : ∀ blocks pois n, w.saved.lookup (SectionPos.fromBlockPos p).chunk = some (blocks, pois) →
    (p, n) ∈ pois.map (PersistentPoi.load (SectionPos.fromBlockPos p).chunk) →
    ∃ t, (stateAt (states blocks) heights.minSectionY p).bind types.typeIdForState = some t ∧ n ≤ types.maxTicketsFor t

theorem follows_empty : Follows heights types p empty where
  settled := by simp [empty, PointOfInterestStorage.getType, getBlockState]
  updating := by simp [empty, updatesAt]
  once := by simp [empty, updatesAt]
  bounded := by simp [empty]
  savedBounded := by simp [empty]

theorem Follows.of_same (h : Follows heights types p w) (hblock : w'.getBlockState heights p = w.getBlockState heights p)
    (hget : w'.poiStorage.get? p = w.poiStorage.get? p) (hupdates : w'.updatesAt p = w.updatesAt p)
    (hsaved : w'.saved = w.saved) : Follows heights types p w' where
  settled := by
    unfold PointOfInterestStorage.getType
    rw [hupdates, hblock, hget]
    exact h.settled
  updating := by
    unfold PointOfInterestStorage.getType
    rw [hupdates, hblock, hget]
    exact h.updating
  once := by
    rw [hupdates]
    exact h.once
  bounded := by
    rw [hget]
    exact h.bounded
  savedBounded := by
    rw [hsaved]
    exact h.savedBounded

theorem Follows.tickets (h : Follows heights types p w) (hstep : TicketStep types w.poiStorage storage') :
    Follows heights types p { w with poiStorage := storage' } where
  settled := fun hnone => (hstep.getType p).trans (h.settled hnone)
  updating := fun update hmem => ⟨(hstep.getType p).trans (h.updating update hmem).1, (h.updating update hmem).2⟩
  once := h.once
  bounded := fun _ hget => hstep.bounded h.bounded hget
  savedBounded := h.savedBounded

theorem updatesAt_cons {update : PendingUpdate} {rest : List PendingUpdate} (hpending : w.pending = update :: rest) :
    w.updatesAt p = if update.pos = p then update :: rest.filter (fun u => decide (u.pos = p))
      else rest.filter fun u => decide (u.pos = p) := by
  unfold updatesAt
  rw [hpending, List.filter_cons]
  simp

theorem getBlockState_of_unloaded (hnew : w.chunks.lookup (SectionPos.fromBlockPos p).chunk = none) :
    w.getBlockState heights p = none := by
  unfold getBlockState
  rw [hnew]
  rfl

variable (heights types w p) in
theorem getBlockState_addChunk (chunk : ChunkPos) (sections : List LoadedSection) :
    (w.addChunk heights types chunk sections).getBlockState heights p =
      if (SectionPos.fromBlockPos p).chunk = chunk then stateAt (states sections) heights.minSectionY p
      else w.getBlockState heights p := by
  unfold getBlockState PoiWorld.addChunk
  dsimp only
  rw [AssocList.lookup_insert]
  by_cases hc : (SectionPos.fromBlockPos p).chunk = chunk
  · rw [if_pos hc, if_pos hc]
    rfl
  · rw [if_neg hc, if_neg hc]

theorem getBlockState_write (state : BlockStateId) (pending : List PendingUpdate) {pos : BlockPos} {old : BlockStateId}
    {sections : List LoadedSection}
    (hlookup : w.chunks.lookup (SectionPos.fromBlockPos pos).chunk = some sections)
    (hold : stateAt (states sections) heights.minSectionY pos = some old) :
    ({ w with
        chunks := w.chunks.insert (SectionPos.fromBlockPos pos).chunk (writeState heights sections pos state)
        pending := pending } : PoiWorld).getBlockState heights p =
      if p = pos then some state else w.getBlockState heights p := by
  unfold getBlockState
  dsimp only
  rw [AssocList.lookup_insert]
  by_cases hc : (SectionPos.fromBlockPos p).chunk = (SectionPos.fromBlockPos pos).chunk
  · rw [if_pos hc, Option.bind_some, stateAt_writeState state hold hc, hc, hlookup, Option.bind_some]
  · rw [if_neg hc, if_neg]
    intro hp
    exact hc (by rw [hp])

/-- A chunk that loads had neither blocks nor points of interest. -/
theorem Follows.unloaded (h : Follows heights types p w) (hnew : w.chunks.lookup (SectionPos.fromBlockPos p).chunk = none) :
    w.updatesAt p = [] ∧ w.poiStorage.get? p = none := by
  have hblock : w.getBlockState heights p = none := getBlockState_of_unloaded hnew
  have hnone : w.updatesAt p = [] := by
    apply List.eq_nil_iff_forall_not_mem.mpr
    intro update hmem
    have hnew := (h.updating update hmem).2
    rw [hblock] at hnew
    cases hnew
  have htype := h.settled hnone
  rw [hblock] at htype
  exact ⟨hnone, Option.map_eq_none_iff.mp htype⟩

theorem Follows.addChunk (h : Follows heights types p w) {chunk : ChunkPos} {sections : List LoadedSection}
    (hnew : w.chunks.lookup chunk = none) : Follows heights types p (w.addChunk heights types chunk sections) := by
  have hget : (w.addChunk heights types chunk sections).poiStorage.get? p = _ :=
    PointOfInterestStorage.get?_populatePoi w.poiStorage types (states_exact sections) heights.minSectionY chunk p
  by_cases hc : (SectionPos.fromBlockPos p).chunk = chunk
  · subst hc
    obtain ⟨hnone, hstored⟩ := h.unloaded hnew
    rw [if_pos rfl, hstored, Option.none_or] at hget
    have hblock := getBlockState_addChunk heights types w p (SectionPos.fromBlockPos p).chunk sections
    rw [if_pos rfl] at hblock
    refine ⟨?_, ?_, ?_, ?_, h.savedBounded⟩
    · intro _
      rw [hblock]
      show (PointOfInterestStorage.get? _ p).map _ = _
      rw [hget]
      cases stateAt (states sections) heights.minSectionY p with
      | none => rfl
      | some state => exact freshPoi_type p state
    · intro update hmem
      rw [show (w.addChunk heights types (SectionPos.fromBlockPos p).chunk sections).updatesAt p = w.updatesAt p from rfl, hnone] at hmem
      cases hmem
    · exact h.once
    · intro poi hpoi
      obtain ⟨state, _, hfresh⟩ := Option.bind_eq_some_iff.mp (hget.symm.trans hpoi)
      exact freshPoi_bounded hfresh
  · rw [if_neg hc] at hget
    refine h.of_same ?_ hget rfl rfl
    rw [getBlockState_addChunk, if_neg hc]

theorem stateAt_of_cells {sections blocks : List LoadedSection}
    (hcells : (states sections).map PalettedContainer.cells = (states blocks).map PalettedContainer.cells) (p : BlockPos) :
    stateAt (states sections) heights.minSectionY p = stateAt (states blocks) heights.minSectionY p := by
  unfold stateAt
  by_cases hbelow : blockToSectionCoord p.y < heights.minSectionY
  · rw [if_pos hbelow, if_pos hbelow]
  · rw [if_neg hbelow, if_neg hbelow]
    generalize (blockToSectionCoord p.y - heights.minSectionY).toNat = i
    have hat := congrArg (fun cells : List (List BlockStateId) => cells[i]?) hcells
    simp only [List.getElem?_map] at hat
    cases hs : (states sections)[i]? with
    | none =>
      rw [hs] at hat
      cases hb : (states blocks)[i]? with
      | none => rfl
      | some b =>
        rw [hb] at hat
        cases hat
    | some s =>
      rw [hs] at hat
      cases hb : (states blocks)[i]? with
      | none =>
        rw [hb] at hat
        cases hat
      | some b =>
        rw [hb] at hat
        exact congrArg some (PalettedContainer.get_of_cells (Option.some.inj hat))

theorem Follows.alone (h : Follows heights types p w) {update : PendingUpdate} {rest : List PendingUpdate}
    (hupdates : w.updatesAt p = update :: rest) : rest = [] := by
  have honce := h.once
  rw [hupdates, List.length_cons] at honce
  exact List.length_eq_zero_iff.mp (by omega)

theorem Follows.step {event : PoiEvent} (h : Follows heights types p w) (hsane : Sane heights w)
    (hguard : Unnested p w event) (hstep : Moves heights types w event w') : Follows heights types p w' := by
  cases hstep with
  | generate hnew hlength => exact h.addChunk hnew
  | @load chunk sections blocks pois hsaved hnew hcells =>
    have hadd : Follows heights types p (w.addChunk heights types chunk sections) := h.addChunk hnew
    have hrestore := PointOfInterestStorage.get?_restoreTickets (w.addChunk heights types chunk sections).poiStorage
      (load_chunk (hsane.savedChunk chunk blocks pois hsaved)) p
    rcases hrestore with ⟨heq, _⟩ | ⟨n, hn, heq⟩
    · exact hadd.of_same rfl heq rfl rfl
    · have hc : (SectionPos.fromBlockPos p).chunk = chunk := load_chunk (hsane.savedChunk chunk blocks pois hsaved) _ hn
      subst hc
      obtain ⟨t, ht, hle⟩ := h.savedBounded blocks pois n hsaved hn
      have hnone : (w.addChunk heights types (SectionPos.fromBlockPos p).chunk sections).updatesAt p = [] := (h.unloaded hnew).1
      have htype := hadd.settled hnone
      rw [getBlockState_addChunk, if_pos rfl, stateAt_of_cells hcells, ht] at htype
      refine ⟨?_, ?_, hadd.once, ?_, hadd.savedBounded⟩
      · intro _
        show (PointOfInterestStorage.get? _ p).map _ = _
        rw [heq, Option.map_map]
        exact hadd.settled hnone
      · intro update hmem
        have hmem' : update ∈ (w.addChunk heights types (SectionPos.fromBlockPos p).chunk sections).updatesAt p := hmem
        rw [hnone] at hmem'
        cases hmem'
      · intro poi hpoi
        obtain ⟨old, hold, rfl⟩ := Option.map_eq_some_iff.mp (heq.symm.trans hpoi)
        have hold' : old.poiTypeId = t := by
          unfold PointOfInterestStorage.getType at htype
          rw [hold] at htype
          exact Option.some.inj htype
        rw [hold']
        exact hle
  | unchanged => exact h
  | @write pos state old sections hlookup hold hne =>
    have hblock := getBlockState_write (p := p) state (⟨pos, old, state, false⟩ :: w.pending) hlookup hold
    by_cases hp : pos = p
    · subst hp
      have hnone := hguard rfl
      have htype := h.settled hnone
      have hbefore : w.getBlockState heights pos = some old := Option.bind_eq_some_iff.mpr ⟨sections, hlookup, hold⟩
      rw [hbefore, Option.bind_some] at htype
      rw [if_pos rfl] at hblock
      have hupdates : ∀ {w' : PoiWorld}, w'.pending = ⟨pos, old, state, false⟩ :: w.pending →
          w'.updatesAt pos = [⟨pos, old, state, false⟩] := by
        intro w' hpending
        rw [updatesAt_cons hpending, if_pos rfl]
        exact congrArg _ hnone
      refine ⟨?_, ?_, ?_, h.bounded, h.savedBounded⟩
      · intro hempty
        rw [hupdates rfl] at hempty
        cases hempty
      · intro update hmem
        rw [hupdates rfl, List.mem_singleton] at hmem
        subst hmem
        exact ⟨htype, hblock⟩
      · rw [hupdates rfl]
        exact le_rfl
    · rw [if_neg (Ne.symm hp)] at hblock
      refine h.of_same hblock rfl ?_ rfl
      rw [updatesAt_cons rfl, if_neg hp]
      rfl
  | @abandon update rest hpending hunchecked hstate =>
    have hupdates := updatesAt_cons (p := p) hpending
    by_cases hp : update.pos = p
    · -- at `p` nothing can have come between
      rw [if_pos hp] at hupdates
      have hnew := (h.updating update (hupdates ▸ List.mem_cons_self)).2
      rw [hp] at hstate
      exact absurd hnew hstate
    · rw [if_neg hp] at hupdates
      exact h.of_same rfl rfl hupdates.symm rfl
  | @check update rest hpending hunchecked hstate =>
    have hupdates := updatesAt_cons (p := p) hpending
    by_cases hp : update.pos = p
    · rw [if_pos hp] at hupdates
      have hnew := h.updating update (hupdates ▸ List.mem_cons_self)
      have honce := h.alone hupdates
      have hafter : ∀ {w' : PoiWorld}, w'.pending = { update with checked := true } :: rest →
          w'.updatesAt p = [{ update with checked := true }] := by
        intro w' hpending'
        rw [updatesAt_cons hpending', if_pos hp, honce]
      refine ⟨?_, ?_, ?_, h.bounded, h.savedBounded⟩
      · intro hempty
        rw [hafter rfl] at hempty
        cases hempty
      · intro update' hmem
        rw [hafter rfl, List.mem_singleton] at hmem
        subst hmem
        exact hnew
      · rw [hafter rfl]
        exact le_rfl
    · rw [if_neg hp] at hupdates
      refine h.of_same rfl rfl ?_ rfl
      rw [updatesAt_cons rfl, hupdates]
      exact if_neg hp
  | @report update rest hpending hchecked =>
    have hupdates := updatesAt_cons (p := p) hpending
    by_cases hp : update.pos = p
    · rw [if_pos hp] at hupdates
      obtain ⟨hold, hnew⟩ := h.updating update (hupdates ▸ List.mem_cons_self)
      have honce := h.alone hupdates
      rw [← hp] at hold
      have hget := w.poiStorage.get?_onBlockStateChange types update.newState hold
      rw [hp] at hget hold
      refine ⟨?_, ?_, ?_, ?_, h.savedBounded⟩
      · intro _
        show (PointOfInterestStorage.get? _ p).map _ = (w.getBlockState heights p).bind _
        rw [hnew, hp, hget, Option.bind_some]
        by_cases hsame : types.typeIdForState update.oldState = types.typeIdForState update.newState
        · rw [if_pos hsame, ← hsame]
          exact hold
        · rw [if_neg hsame]
          exact freshPoi_type p update.newState
      · intro update' hmem
        have hmem' : update' ∈ rest.filter fun u => decide (u.pos = p) := hmem
        rw [honce] at hmem'
        cases hmem'
      · show (rest.filter fun u => decide (u.pos = p)).length ≤ 1
        rw [honce]
        exact Nat.zero_le 1
      · intro poi hpoi
        dsimp only at hpoi
        rw [hp, hget] at hpoi
        by_cases hsame : types.typeIdForState update.oldState = types.typeIdForState update.newState
        · rw [if_pos hsame] at hpoi
          exact h.bounded poi hpoi
        · rw [if_neg hsame] at hpoi
          exact freshPoi_bounded hpoi
    · rw [if_neg hp] at hupdates
      exact h.of_same rfl (PointOfInterestStorage.get?_onBlockStateChange_ne _ _ (Ne.symm hp) _ _) hupdates.symm rfl
  | @save chunk sections hlookup =>
    refine ⟨h.settled, h.updating, h.once, h.bounded, ?_⟩
    intro blocks pois n hsaved hn
    dsimp only at hsaved
    rw [AssocList.lookup_insert] at hsaved
    by_cases hc : (SectionPos.fromBlockPos p).chunk = chunk
    · rw [if_pos hc] at hsaved
      cases hsaved
      have hcollected : (p, n) ∈ w.poiStorage.collectForChunk chunk := by
        rw [List.map_map] at hn
        obtain ⟨ticket, hticket, heq⟩ := List.mem_map.mp hn
        rw [hc, Function.comp_apply, load_collected hsane hticket] at heq
        rw [← heq]
        exact hticket
      obtain ⟨_, poi, hget, rfl⟩ := PointOfInterestStorage.mem_collectForChunk.mp hcollected
      have hblock : w.getBlockState heights p = stateAt (states sections) heights.minSectionY p := by
        unfold getBlockState
        rw [hc, hlookup]
        rfl
      refine ⟨poi.poiTypeId, ?_, h.bounded poi hget⟩
      rw [← hblock, ← h.settled (hguard hc)]
      unfold PointOfInterestStorage.getType
      rw [hget]
      rfl
    · rw [if_neg hc] at hsaved
      exact h.savedBounded blocks pois n hsaved hn
  | @unload chunk hloaded hpending =>
    have hget := w.poiStorage.get?_removeChunk chunk p
    by_cases hc : (SectionPos.fromBlockPos p).chunk = chunk
    · rw [if_pos hc] at hget
      have hnone : w.updatesAt p = [] := by
        apply List.filter_eq_nil_iff.mpr
        intro update hmem hp
        exact hpending update hmem (by rw [of_decide_eq_true hp, hc])
      refine ⟨?_, ?_, h.once, ?_, h.savedBounded⟩
      · intro _
        rw [getBlockState_of_unloaded (by dsimp only; rw [AssocList.lookup_erase, if_pos hc])]
        show (PointOfInterestStorage.get? _ p).map _ = _
        rw [hget]
        rfl
      · intro update hmem
        have hmem' : update ∈ w.updatesAt p := hmem
        rw [hnone] at hmem'
        cases hmem'
      · intro poi hpoi
        rw [hget] at hpoi
        cases hpoi
    · rw [if_neg hc] at hget
      refine h.of_same ?_ hget rfl rfl
      unfold getBlockState
      dsimp only
      rw [AssocList.lookup_erase, if_neg hc]
  | tickets hevent hstep => exact h.tickets hstep

/-! ## Runs -/

theorem run_sane {events : List PoiEvent} (h : Run (Step heights types) empty events w) : Sane heights w :=
  h.invariant sane_empty fun _ _ _ hsane hstep => hsane.step hstep.moves

theorem run_follows {events : List PoiEvent} (h : Run (Guarded (Unnested p) (Step heights types)) empty events w) :
    Follows heights types p w := by
  have hboth : Sane heights w ∧ Follows heights types p w := by
    apply h.invariant_of_guarded (I := fun w => Sane heights w ∧ Follows heights types p w) ⟨sane_empty, follows_empty⟩
    intro w event w' hinv hguard hstep
    exact ⟨hinv.1.step hstep.moves, hinv.2.step hinv.1 hguard hstep.moves⟩
  exact hboth.2

theorem step_write {state old : BlockStateId} {sections : List LoadedSection}
    (hlookup : w.chunks.lookup (SectionPos.fromBlockPos pos).chunk = some sections)
    (hold : stateAt (states sections) heights.minSectionY pos = some old) (hne : old ≠ state) :
    Step heights types w (.write pos state) { w with
      chunks := w.chunks.insert (SectionPos.fromBlockPos pos).chunk (writeState heights sections pos state)
      pending := ⟨pos, old, state, false⟩ :: w.pending } := by
  unfold Step exec
  dsimp only
  rw [hlookup]
  dsimp only
  rw [hold]
  exact if_neg hne

variable (types) in
theorem step_check {rest : List PendingUpdate} {old state : BlockStateId}
    (hpending : w.pending = ⟨pos, old, state, false⟩ :: rest)
    (hstate : w.getBlockState heights pos = some state) :
    Step heights types w .check { w with pending := ⟨pos, old, state, true⟩ :: rest } := by
  unfold Step exec
  dsimp only
  rw [hpending]
  dsimp only
  rw [if_neg Bool.false_ne_true, if_neg (not_not.mpr hstate)]

variable (heights types) in
theorem step_report {rest : List PendingUpdate} {old state : BlockStateId}
    (hpending : w.pending = ⟨pos, old, state, true⟩ :: rest) :
    Step heights types w .report { w with
      poiStorage := w.poiStorage.onBlockStateChange types pos old state
      pending := rest } := by
  unfold Step exec
  dsimp only
  rw [hpending]
  rfl

variable (types) in
/-- The world after a write of a loaded block, with the block in place. -/
theorem exists_write {state old : BlockStateId} (hold : w.getBlockState heights pos = some old) (hne : old ≠ state) :
    ∃ w', Step heights types w (.write pos state) w' ∧ w'.pending = ⟨pos, old, state, false⟩ :: w.pending ∧
      w'.poiStorage = w.poiStorage ∧ w'.getBlockState heights pos = some state := by
  obtain ⟨sections, hlookup, hat⟩ := Option.bind_eq_some_iff.mp hold
  exact ⟨_, step_write hlookup hat hne, rfl, rfl, (getBlockState_write _ _ hlookup hat).trans (if_pos rfl)⟩

/-- An update among the neighbor updates of an update of the same position is reported first, so the older
block is reported last and its point of interest stays behind. -/
theorem nested_update_leaves_stale {p : BlockPos} {old new last : BlockStateId} {t : Nat}
    (hblock : w.getBlockState heights p = some old)
    (hold : types.typeIdForState old = none) (hnew : types.typeIdForState new = some t)
    (hlast : types.typeIdForState last = none) :
    ∃ w', Run (Step heights types) w [.write p new, .check, .write p last, .check, .report, .report] w' ∧
      w'.pending = w.pending ∧ w'.getBlockState heights p = some last ∧ w'.poiStorage.getType p = some t := by
  have hne : old ≠ new := by
    intro heq
    rw [heq, hnew] at hold
    cases hold
  have hne' : new ≠ last := by
    intro heq
    rw [← heq, hnew] at hlast
    cases hlast
  obtain ⟨w₁, hstep₁, hpending₁, hstorage₁, hblock₁⟩ := exists_write types hblock hne
  have hstep₂ := step_check types hpending₁ hblock₁
  obtain ⟨w₃, hstep₃, hpending₃, hstorage₃, hblock₃⟩ := exists_write types
    (w := { w₁ with pending := ⟨p, old, new, true⟩ :: w.pending }) hblock₁ hne'
  have hstep₄ := step_check types hpending₃ hblock₃
  have hstep₅ := step_report heights types
    (w := { w₃ with pending := ⟨p, new, last, true⟩ :: ⟨p, old, new, true⟩ :: w.pending }) rfl
  have hstep₆ := step_report heights types
    (w := { w₃ with
      poiStorage := w₃.poiStorage.onBlockStateChange types p new last
      pending := ⟨p, old, new, true⟩ :: w.pending }) rfl
  refine ⟨_, (((((Run.single hstep₁).snoc hstep₂).snoc hstep₃).snoc hstep₄).snoc hstep₅).snoc hstep₆, rfl, hblock₃, ?_⟩
  have hstorage : w₃.poiStorage = w.poiStorage := hstorage₃.trans hstorage₁
  have hempty : (w₃.poiStorage.onBlockStateChange types p new last).get? p = none := by
    unfold PointOfInterestStorage.onBlockStateChange
    rw [hstorage, hnew, hlast, if_neg (by simp), PoiTypeRegistry.ticketsForState_eq, hlast]
    exact (PointOfInterestStorage.get?_remove _ p p).trans (if_pos rfl)
  have htype : (w₃.poiStorage.onBlockStateChange types p new last).getType p = types.typeIdForState old := by
    unfold PointOfInterestStorage.getType
    rw [hempty, hold]
    rfl
  show (PointOfInterestStorage.get? _ p).map _ = _
  rw [PointOfInterestStorage.get?_onBlockStateChange _ _ _ htype, hold, hnew, if_neg (by simp), freshPoi_type, hnew]

/-! ## Reloading a chunk -/

/-- The chunk is on disk only. -/
structure Away (chunk : ChunkPos) (entry : List LoadedSection × List PersistentPoi) (w : PoiWorld) :
    Prop where
  unloaded : w.chunks.lookup chunk = none
  kept : w.saved.lookup chunk = some entry
  idle : ∀ update ∈ w.pending, (SectionPos.fromBlockPos update.pos).chunk ≠ chunk
  cleared : ∀ q, (SectionPos.fromBlockPos q).chunk = chunk → w.poiStorage.get? q = none

def StaysAway (chunk : ChunkPos) (event : PoiEvent) : Prop :=
  ∀ sections, event ≠ .generate chunk sections ∧ event ≠ .load chunk sections

variable {chunk : ChunkPos} {entry : List LoadedSection × List PersistentPoi}

theorem Away.addChunk (h : Away chunk entry w) {other : ChunkPos} {sections : List LoadedSection} (hne : chunk ≠ other) :
    Away chunk entry (w.addChunk heights types other sections) where
  unloaded := by
    unfold PoiWorld.addChunk
    rw [AssocList.lookup_insert, if_neg hne]
    exact h.unloaded
  kept := h.kept
  idle := h.idle
  cleared := by
    intro q hq
    unfold PoiWorld.addChunk
    rw [PointOfInterestStorage.get?_populatePoi _ _ (states_exact sections), if_neg (by rw [hq]; exact hne)]
    exact h.cleared q hq

theorem Away.step {event : PoiEvent} (h : Away chunk entry w) (hsane : Sane heights w) (haway : StaysAway chunk event)
    (hstep : Moves heights types w event w') : Away chunk entry w' := by
  cases hstep with
  | @generate other sections hnew hlength =>
    apply h.addChunk
    intro heq
    exact (haway sections).1 (by rw [heq])
  | @load other sections blocks pois hsaved hnew hcells =>
    have hne : chunk ≠ other := fun heq => (haway sections).2 (by rw [heq])
    have hadd : Away chunk entry (w.addChunk heights types other sections) := h.addChunk hne
    refine ⟨hadd.unloaded, hadd.kept, hadd.idle, ?_⟩
    intro q hq
    rw [← Option.not_isSome_iff_eq_none]
    intro hsome
    have hbefore := restoreTickets_isSome (load_chunk (hsane.savedChunk other blocks pois hsaved)) hsome
    rw [hadd.cleared q hq] at hbefore
    cases hbefore
  | unchanged => exact h
  | @write pos state old sections hlookup hold hne =>
    have hother : (SectionPos.fromBlockPos pos).chunk ≠ chunk := by
      intro heq
      rw [heq, h.unloaded] at hlookup
      cases hlookup
    refine ⟨?_, h.kept, ?_, h.cleared⟩
    · dsimp only
      rw [AssocList.lookup_insert, if_neg (Ne.symm hother)]
      exact h.unloaded
    · intro update hmem
      rcases List.mem_cons.mp hmem with heq | hmem
      · rw [heq]
        exact hother
      · exact h.idle update hmem
  | abandon hpending hunchecked hstate =>
    exact ⟨h.unloaded, h.kept, fun u hu => h.idle u (hpending ▸ List.mem_cons_of_mem _ hu), h.cleared⟩
  | @check update rest hpending hunchecked hstate =>
    refine ⟨h.unloaded, h.kept, ?_, h.cleared⟩
    intro u hu
    rcases List.mem_cons.mp hu with heq | hu
    · rw [heq]
      exact h.idle update (hpending ▸ List.mem_cons_self)
    · exact h.idle u (hpending ▸ List.mem_cons_of_mem _ hu)
  | @report update rest hpending hchecked =>
    have hother := h.idle update (hpending ▸ List.mem_cons_self)
    refine ⟨h.unloaded, h.kept, fun u hu => h.idle u (hpending ▸ List.mem_cons_of_mem _ hu), ?_⟩
    intro q hq
    dsimp only
    rw [PointOfInterestStorage.get?_onBlockStateChange_ne]
    · exact h.cleared q hq
    · intro heq
      exact hother (by rw [← heq, hq])
  | @save other sections hlookup =>
    refine ⟨h.unloaded, ?_, h.idle, h.cleared⟩
    dsimp only
    rw [AssocList.lookup_insert, if_neg]
    · exact h.kept
    · intro heq
      rw [← heq, h.unloaded] at hlookup
      cases hlookup
  | @unload other hloaded hpending =>
    refine ⟨?_, h.kept, h.idle, ?_⟩
    · dsimp only
      rw [AssocList.lookup_erase, h.unloaded]
      exact ite_self none
    · intro q hq
      dsimp only
      rw [PointOfInterestStorage.get?_removeChunk, h.cleared q hq]
      exact ite_self none
  | tickets hevent hstep =>
    refine ⟨h.unloaded, h.kept, h.idle, ?_⟩
    intro q hq
    rw [← Option.not_isSome_iff_eq_none]
    intro hsome
    have hbefore := hstep.isSome hsome
    rw [h.cleared q hq] at hbefore
    cases hbefore

theorem away_of_unload {w₁ w₂ : PoiWorld} (hsave : Step heights types w (.save chunk) w₁)
    (hunload : Step heights types w₁ (.unload chunk) w₂) : ∃ blocks, w.chunks.lookup chunk = some blocks ∧
      (∀ update ∈ w.pending, (SectionPos.fromBlockPos update.pos).chunk ≠ chunk) ∧
      Away chunk (blocks, (w.poiStorage.collectForChunk chunk).map (PersistentPoi.save chunk)) w₂ := by
  cases hsave.moves with
  | tickets hevent => cases hevent
  | @save chunk blocks hlookup =>
    cases hunload.moves with
    | tickets hevent => cases hevent
    | unload hloaded hpending =>
      refine ⟨blocks, hlookup, hpending, AList.lookup_erase _ _, AList.lookup_insert _, hpending, ?_⟩
      intro p hp
      dsimp only
      rw [PointOfInterestStorage.get?_removeChunk, if_pos hp]

/-- What a load makes of the saved tickets, when they were those of the same blocks. -/
theorem get?_restore_populate (hsane : Sane heights w) {blocks : List LoadedSection}
    (hlookup : w.chunks.lookup chunk = some blocks) (hq : (SectionPos.fromBlockPos q).chunk = chunk)
    (htype : w.poiStorage.getType q = (w.getBlockState heights q).bind types.typeIdForState)
    (hfresh : storage.get? q = (stateAt (states blocks) heights.minSectionY q).bind (freshPoi types q)) :
    (storage.restoreTickets chunk (((w.poiStorage.collectForChunk chunk).map (PersistentPoi.save chunk)).map
      (PersistentPoi.load chunk))).get? q = w.poiStorage.get? q := by
  have htickets : ((w.poiStorage.collectForChunk chunk).map (PersistentPoi.save chunk)).map (PersistentPoi.load chunk) =
      w.poiStorage.collectForChunk chunk := by
    rw [List.map_map]
    exact (List.map_congr_left fun ticket hticket => load_collected hsane hticket).trans (List.map_id _)
  have hblock : w.getBlockState heights q = stateAt (states blocks) heights.minSectionY q := by
    unfold getBlockState
    rw [hq, hlookup]
    rfl
  have hstored : (storage.get? q).map PointOfInterest.poiTypeId = w.poiStorage.getType q := by
    rw [hfresh, htype, hblock]
    cases stateAt (states blocks) heights.minSectionY q with
    | none => rfl
    | some state => exact freshPoi_type q state
  unfold PointOfInterestStorage.getType at hstored
  rw [htickets]
  rcases PointOfInterestStorage.get?_restoreTickets storage
    (fun ticket hticket => (PointOfInterestStorage.mem_collectForChunk.mp hticket).1) q with ⟨heq, hnot⟩ | ⟨n, hn, heq⟩
  · rw [heq]
    cases hold : w.poiStorage.get? q with
    | none =>
      rw [hold] at hstored
      exact Option.map_eq_none_iff.mp hstored
    | some poi =>
      -- a known point of interest is among the collected ones
      exact absurd (List.mem_map.mpr ⟨(q, poi.freeTickets), PointOfInterestStorage.mem_collectForChunk.mpr ⟨hq, poi, hold, rfl⟩, rfl⟩) hnot
  · obtain ⟨_, poi, hold, rfl⟩ := PointOfInterestStorage.mem_collectForChunk.mp hn
    rw [hold] at hstored ⊢
    obtain ⟨fresh, hget, htypes⟩ := Option.map_eq_some_iff.mp hstored
    rw [heq, hget]
    have hpos := (PointOfInterestStorage.get?_pos hget).trans (PointOfInterestStorage.get?_pos hold).symm
    cases poi
    cases fresh
    simp only at htypes hpos
    simp [htypes, hpos]

variable (heights types) in
/-- An idle chunk can be saved, unloaded and loaded again. -/
theorem exists_reload {sections : List LoadedSection} (hlookup : w.chunks.lookup chunk = some sections)
    (hidle : ∀ update ∈ w.pending, (SectionPos.fromBlockPos update.pos).chunk ≠ chunk) :
    ∃ w₁ w₂ w₃, Step heights types w (.save chunk) w₁ ∧ Step heights types w₁ (.unload chunk) w₂ ∧
      Step heights types w₂ (.load chunk sections) w₃ := by
  let w₁ : PoiWorld := { w with
    saved := w.saved.insert chunk (sections, (w.poiStorage.collectForChunk chunk).map (PersistentPoi.save chunk)) }
  let w₂ : PoiWorld := { w₁ with
    chunks := w.chunks.erase chunk
    poiStorage := w.poiStorage.removeChunk chunk }
  have hsave : Step heights types w (.save chunk) w₁ := by
    unfold Step exec
    dsimp only
    rw [hlookup]
  have hunload : Step heights types w₁ (.unload chunk) w₂ := by
    unfold Step exec
    dsimp only
    rw [if_neg]
    intro hguard
    rcases hguard with hunloaded | hbusy
    · simp [w₁, hlookup] at hunloaded
    · obtain ⟨update, hmem, hc⟩ := List.any_eq_true.mp hbusy
      exact hidle update hmem (of_decide_eq_true hc)
  have hsaved : w₂.saved.lookup chunk =
      some (sections, (w.poiStorage.collectForChunk chunk).map (PersistentPoi.save chunk)) := AList.lookup_insert _
  have hnew : w₂.chunks.lookup chunk = none := AList.lookup_erase _ _
  refine ⟨w₁, w₂, { w₂.addChunk heights types chunk sections with
    poiStorage := (w₂.addChunk heights types chunk sections).poiStorage.restoreTickets chunk
      (((w.poiStorage.collectForChunk chunk).map (PersistentPoi.save chunk)).map (PersistentPoi.load chunk)) }, hsave, hunload, ?_⟩
  unfold Step exec
  dsimp only
  rw [hsaved]
  dsimp only
  rw [if_neg]
  rw [not_or, not_not, hnew]
  exact ⟨Bool.false_ne_true, rfl⟩

def stone : BlockStateId := ⟨1⟩

def bell : BlockStateId := ⟨2⟩

def bellTypes : PoiTypeRegistry :=
  (PoiTypeRegistry.new.register ⟨"minecraft:meeting", [⟨"minecraft:bell", []⟩], 32⟩).buildStateIndex fun _ => [bell]

def oneSection : Heights := ⟨0, 1, by decide, by decide⟩

def stoneSection : LoadedSection := ⟨.homogeneous stone, trivial⟩

def stoneWorld : PoiWorld := empty.addChunk oneSection bellTypes ⟨0, 0⟩ [stoneSection]

theorem step_generate : Step oneSection bellTypes empty (.generate ⟨0, 0⟩ [stoneSection]) stoneWorld := rfl

theorem unnested_of_idle {event : PoiEvent} (h : w.pending = []) : Unnested p w event := by
  have hnone : w.updatesAt p = [] := by
    unfold updatesAt
    rw [h]
    rfl
  cases event with
  | write pos state => exact fun _ => hnone
  | save chunk => exact fun _ => hnone
  | _ => trivial

/-- A bell is set in a chunk of stone. -/
theorem exists_bell : ∃ w, Run (Guarded (fun w event => ∀ p, Unnested p w event) (Step oneSection bellTypes)) empty
      [.generate ⟨0, 0⟩ [stoneSection], .write ⟨0, 0, 0⟩ bell, .check, .report] w ∧
    w.pending = [] ∧ w.getBlockState oneSection ⟨0, 0, 0⟩ = some bell := by
  have hstone : stoneWorld.getBlockState oneSection ⟨0, 0, 0⟩ = some stone := rfl
  obtain ⟨w₁, hstep₁, hpending₁, hstorage₁, hblock₁⟩ := exists_write bellTypes hstone (show stone ≠ bell by decide)
  have hstep₂ := step_check bellTypes hpending₁ hblock₁
  have hstep₃ := step_report oneSection bellTypes
    (w := { w₁ with pending := ⟨⟨0, 0, 0⟩, stone, bell, true⟩ :: stoneWorld.pending }) rfl
  refine ⟨{ w₁ with poiStorage := w₁.poiStorage.onBlockStateChange bellTypes ⟨0, 0, 0⟩ stone bell, pending := [] }, ?_, rfl, hblock₁⟩
  have hidle : ∀ p, Unnested p stoneWorld (.write ⟨0, 0, 0⟩ bell) := fun p => unnested_of_idle rfl
  exact (((Run.single ⟨fun _ => trivial, step_generate⟩).snoc ⟨hidle, hstep₁⟩).snoc ⟨fun _ => trivial, hstep₂⟩).snoc
    ⟨fun _ => trivial, hstep₃⟩

end PoiWorld
end Foton.Poi

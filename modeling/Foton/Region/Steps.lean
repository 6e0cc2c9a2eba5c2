import Foton.Region.Events

/-!
# Operations as sequences of events

Each operation, with any script, changes a region by events alone. `G` says
which events a reader of these results is ready to see: chunk writes and lost
handles have to be allowed, everything else is free.
-/

namespace Foton

open Async

def RegionEvent.isFree : RegionEvent → Bool
  | .wrote _ | .saved _ | .lost => false
  | _ => true

theorem max_zero_uint32 (a : UInt32) : max a 0 = a := by
  apply UInt32.toNat_inj.mp
  rw [toNat_max_uint32]
  exact Nat.max_eq_left (Nat.zero_le _)

namespace Region

theorem writeFile_eq_writeSectors (s : Region) (off : UInt32) (bytes : List UInt8) :
    s.writeFile (off.toNat * sectorSize) bytes = s.writeSectors off 0 bytes := by
  unfold writeSectors mapHandle
  simp only [max_zero_uint32]
  cases h : s.handle <;> simp [writeFile, h]

theorem insert_remove {s : Region} {handle : RegionHandle} (h : s.handle = some handle) :
    s.remove.insert handle = s := by
  unfold insert remove
  rw [← h]

theorem remove_eq {s : Region} (h : s.handle = none) : s.remove = s := by
  unfold remove
  rw [← h]

theorem writeTable_stored (s : Region) (header : RegionHeader) : (s.writeTable header).Stored header := by
  intro f hf
  obtain ⟨g, -, rfl⟩ := Option.map_eq_some_iff.mp hf
  exact ByteFile.read_writeTable g header

end Region

open Region

section
variable {G : Region → RegionEvent → Prop} (hG : ∀ s ev, ev.isFree = true → G s ev)
include hG

theorem Moved.free {s t : Region} {ev : RegionEvent} (hf : ev.isFree = true) (h : Does s ev t) : Moved G s t :=
  ⟨ev, hG s ev hf, h⟩

/-! ## Opening -/

theorem createRegion_moves (o : Opening) :
    Moves (Moved G) (fun s => s.handle = none ∧ s.file = none) (createRegion o)
      fun handle s => s.handle = none ∧ ∃ f, s.file = some f ∧ readRegion f = .ok (some handle) := by
  apply Moves.bind (Q := fun _ s => s.handle = none ∧ s.file = some (ByteFile.empty.write 0 newRegionBytes))
  · apply Moves.effect
    · intro _ s hs
      refine ⟨.single (Moved.free hG rfl (.made _ hs.1 hs.2)), hs.1, ?_⟩
      show some _ = some _
      rw [List.take_length]
    · intro _ s hs
      cases o.made with
      | none => exact .refl
      | some n => exact .single (Moved.free hG rfl (.made n hs.1 hs.2))
  · intro _
    apply Moves.pure
    intro s hs
    exact ⟨hs.1, _, hs.2, readRegion_new⟩

theorem openRegion_moves (o : Opening) :
    Moves (Moved G) (fun s => s.handle = none) (openRegion o)
      fun handle s => s.handle = none ∧ ∃ f, s.file = some f ∧ readRegion f = .ok (some handle) := by
  apply Moves.bind_get
  intro t hnone
  cases hfile : t.file with
  | none =>
    apply (createRegion_moves hG o).pre
    intro s hs
    rw [hs]
    exact ⟨hnone, hfile⟩
  | some f =>
    apply Moves.bind_await
    cases hread : readRegion f with
    | error e => exact Moves.throw
    | ok opened =>
      cases opened with
      | some handle =>
        apply Moves.pure
        intro s hs
        rw [hs]
        exact ⟨hnone, f, hfile, hread⟩
      | none =>
        have hremove : Moved G t t.removeFile := Moved.free hG rfl (.unlinked hnone hfile hread)
        apply Moves.bind (Q := fun _ s => s.handle = none ∧ s.file = none)
        · apply Moves.effect
          · intro _ s hs
            rw [hs]
            exact ⟨.single hremove, hnone, rfl⟩
          · intro _ s hs
            rw [hs]
            cases o.movedAside with
            | true => exact .single hremove
            | false => exact .refl
        · intro _
          exact createRegion_moves hG o

/-- `C` is what the caller needs of the region once its handle is there. -/
theorem getOrOpen_moves {C : Region → Prop} (o : Opening) (s₀ : Region) (hs : s₀.Sound)
    (hC : s₀.handle.isSome → C s₀)
    (hopen : ∀ (s : Region) f handle, s.file = some f → readRegion f = .ok (some handle) → C (s.insertOpened handle)) :
    Moves (Moved G) (fun s => s = s₀) (getOrOpen o) fun handle s => s.Sound ∧ s.handle = some handle ∧ C s ∧
      (s₀.handle = none → handle.headerDirty = false) := by
  apply Moves.bind_get
  intro t ht
  subst ht
  cases hhandle : t.handle with
  | some handle =>
    apply Moves.pure
    intro s ht
    subst ht
    exact ⟨hs, hhandle, hC (by rw [hhandle]; rfl), fun h => by cases h⟩
  | none =>
    apply Moves.bind ((openRegion_moves hG o).pre fun s ht => by rw [ht]; exact hhandle)
    intro handle
    have hdoes : ∀ s, (s.handle = none ∧ ∃ f, s.file = some f ∧ readRegion f = .ok (some handle)) →
        Does s .opened (s.insertOpened handle) := fun s ⟨hnone, f, hfile, hread⟩ => .opened hnone hfile hread
    apply Moves.bind (Q := fun _ s => s.Sound ∧ s.handle = some handle ∧ C s ∧ handle.headerDirty = false)
    · apply Moves.modify
      · intro s hs
        exact Moved.free hG rfl (hdoes s hs)
      · intro s hs
        obtain ⟨hnone, f, hfile, hread⟩ := hs
        have hsound : s.Sound := fun _ h => by rw [hnone] at h; cases h
        obtain ⟨-, -, -, -, -, -, -, hdirty, -⟩ := readRegion_some hread
        exact ⟨(hdoes s ⟨hnone, f, hfile, hread⟩).sound hsound, rfl, hopen s f handle hfile hread, hdirty⟩
    · intro _
      apply Moves.pure
      intro s ⟨hsound, hsome, hc, hdirty⟩
      exact ⟨hsound, hsome, hc, fun _ => hdirty⟩

/-! ## Table writes -/

/-- The handle in the map has the table `header`. -/
def Holds (header : RegionHeader) (s : Region) : Prop := ∃ handle, s.handle = some handle ∧ handle.header = header

theorem writeHeader_moves (w : TableWrite) (header : RegionHeader) :
    Moves (Moved G) (Holds header) (writeHeader w header) fun _ s => Holds header s ∧ s.Stored header := by
  have hdoes : ∀ s, Holds header s → Moved G s (s.writeTable header) := by
    intro s ⟨handle, hsome, heq⟩
    rw [← heq]
    exact Moved.free hG rfl (.committed hsome)
  apply Moves.effect
  · intro _ s hs
    exact ⟨.single (hdoes s hs), hs, writeTable_stored s _⟩
  · intro _ s hs
    cases w.landed with
    | true => exact .single (hdoes s hs)
    | false => exact .refl

theorem cleaned_moves (header : RegionHeader) :
    Moves (Moved G) (fun s => Holds header s ∧ s.Stored header)
      (Async.modify (Region.mapHandle fun handle => { handle with headerDirty := false }) : RegionM Unit)
      fun _ _ => True := by
  apply Moves.modify
  · intro s ⟨⟨handle, hsome, heq⟩, hstored⟩
    rw [← heq] at hstored
    exact Moved.free hG rfl (.cleaned hsome hstored)
  · exact fun _ _ => trivial

theorem flushRegion_moves (w : TableWrite) :
    Moves (Moved G) (fun _ => True) (flushRegion w) fun _ _ => True := by
  apply Moves.bind_get
  intro t _
  cases hhandle : t.handle with
  | none => exact Moves.pure fun _ _ => trivial
  | some handle =>
    dsimp only
    split
    · apply Moves.bind ((writeHeader_moves hG w handle.header).pre fun s hs => ?_)
      · exact fun _ => cleaned_moves hG handle.header
      · rw [hs]
        exact ⟨handle, hhandle, rfl⟩
    · exact Moves.pure fun _ _ => trivial

theorem clearCorruptChunkIfUnchanged_moves (c : ClearScript) (index : Fin chunksPerRegion) (expectedEntry : ChunkEntry) :
    Moves (Moved G) (fun _ => True) (clearCorruptChunkIfUnchanged c index expectedEntry) fun _ _ => True := by
  apply Moves.bind_get
  intro t _
  cases hhandle : t.handle with
  | none => exact Moves.throw
  | some handle =>
    dsimp only
    split
    · apply Moves.bind_await
      apply Moves.bind (Q := fun _ s => Holds (handle.header.set index .empty) s)
      · apply Moves.modify
        · intro s hs
          exact Moved.free hG rfl (.cleared index (by rw [hs, hhandle]; rfl))
        · intro s hs
          rw [hs]
          exact ⟨_, congrArg (Option.map _) hhandle, rfl⟩
      · intro _
        apply Moves.bind (writeHeader_moves hG c.table (handle.header.set index .empty))
        intro _
        apply Moves.bind (cleaned_moves hG (handle.header.set index .empty))
        exact fun _ => Moves.pure fun _ _ => trivial
    · exact Moves.pure fun _ _ => trivial

/-! ## References -/

theorem acquireChunk_moves (o : Opening) (index : Fin chunksPerRegion) (s₀ : Region) (hs : s₀.Sound) :
    Moves (Moved G) (fun s => s = s₀) (acquireChunk o index) fun _ _ => True := by
  apply Moves.bind (getOrOpen_moves hG (C := fun _ => True) o s₀ hs (fun _ => trivial) fun _ _ _ _ _ => trivial)
  intro handle
  apply Moves.bind (Q := fun _ _ => True)
  · apply Moves.modify
    · intro s ⟨_, hsome, _, _⟩
      have heq : (s.mapHandle fun handle => { handle with loadedChunkCount := handle.loadedChunkCount + 1 }) =
          s.mapHandle fun h => { h with loadedChunkCount := handle.loadedChunkCount + 1 } := by
        unfold mapHandle
        rw [hsome]
        rfl
      rw [heq]
      exact Moved.free hG rfl (.counted _)
    · exact fun _ _ => trivial
  · exact fun _ => Moves.pure fun _ _ => trivial

/-- Releasing the last reference loses the handle exactly when it is dirty, the operation
is dropped at the table write, and the table has not reached the file. -/
def SafeRelease (s : Region) (w : TableWrite) : Prop :=
  ∀ handle, s.handle = some handle → handle.headerDirty = true → handle.loadedChunkCount ≤ 1 →
    w.fate = .cancelled → w.landed = true

/-- What becomes of a handle taken out of the map before its table is written: an error
puts it back. -/
def putBack (w : TableWrite) (handle : RegionHandle) (s : Region) : Region :=
  match w.fate with
  | .failed _ => (writeHeader w handle.header s).2.insert handle
  | _ => (writeHeader w handle.header s).2

theorem putBack_moves (w : TableWrite) {handle : RegionHandle} {s : Region} (hs : s.handle = some handle)
    (hlost : (w.fate = .cancelled → w.landed = true) ∨ ∀ s, G s .lost) :
    Relation.ReflTransGen (Moved G) s (putBack w handle s.remove) := by
  have hcommit : Moved G s (s.writeTable handle.header) := Moved.free hG rfl (.committed hs)
  have hclose : Moved G (s.writeTable handle.header) (s.remove.writeTable handle.header) :=
    Moved.free hG rfl (.closed hs (Or.inr (writeTable_stored s _)))
  have hback : (s.remove.writeTable handle.header).insert handle = s.writeTable handle.header :=
    @insert_remove (s.writeTable handle.header) handle hs
  unfold putBack writeHeader effect
  cases hfate : w.fate with
  | done => exact .tail (.single hcommit) hclose
  | failed e =>
    cases w.landed with
    | true =>
      show Relation.ReflTransGen (Moved G) s ((s.remove.writeTable handle.header).insert handle)
      rw [hback]
      exact .single hcommit
    | false =>
      show Relation.ReflTransGen (Moved G) s (s.remove.insert handle)
      rw [insert_remove hs]
  | cancelled =>
    cases hlanded : w.landed with
    | true => exact .tail (.single hcommit) hclose
    | false =>
      rcases hlost with hsafe | hall
      · have := hsafe hfate
        rw [hlanded] at this
        cases this
      · exact .single ⟨.lost, hall s, .lost⟩

theorem releaseChunk_moves (w : TableWrite) (s₀ : Region) (hlost : SafeRelease s₀ w ∨ ∀ s, G s .lost) :
    Moves (Moved G) (fun s => s = s₀) (releaseChunk w) fun _ _ => True := by
  apply Moves.bind_get
  intro t ht
  subst ht
  cases hhandle : t.handle with
  | none => exact Moves.pure fun _ _ => trivial
  | some handle =>
    let handle' : RegionHandle := { handle with loadedChunkCount := handle.loadedChunkCount - 1 }
    apply Moves.bind (Q := fun _ s => s.handle = some handle')
    · apply Moves.modify
      · intro s hs
        have heq : s.insert handle' =
            s.mapHandle fun h => { h with loadedChunkCount := handle.loadedChunkCount - 1 } := by
          unfold mapHandle
          rw [hs, hhandle]
          rfl
        rw [heq]
        exact Moved.free hG rfl (.counted _)
      · exact fun _ _ => rfl
    intro _
    show Moves _ _ (if handle'.loadedChunkCount = 0 then _ else _) _
    by_cases hcount : handle'.loadedChunkCount = 0
    · rw [if_pos hcount]
      intro s hs
      refine ⟨?_, fun _ _ => trivial⟩
      by_cases hdirty : handle'.headerDirty = true
      · have hsafe : (w.fate = .cancelled → w.landed = true) ∨ ∀ s, G s .lost := by
          rcases hlost with hsafe | hall
          · exact Or.inl (hsafe handle hhandle hdirty (Nat.le_of_sub_eq_zero hcount))
          · exact Or.inr hall
        have hmoves := putBack_moves hG w hs hsafe
        rw [if_pos hdirty]
        obtain ⟨fate, landed⟩ := w
        cases fate with
        | done => exact hmoves
        | failed e => exact hmoves
        | cancelled => exact hmoves
      · rw [if_neg hdirty]
        exact .single (Moved.free hG rfl (.closed hs (Or.inl (Bool.eq_false_iff.mpr hdirty))))
    · rw [if_neg hcount]
      exact Moves.pure fun _ _ => trivial

omit hG in
theorem loadChunk_moves (read : Fate IoError) (index : Fin chunksPerRegion) :
    Moves (Moved G) (fun _ => True) (loadChunk read index) fun _ _ => True := by
  apply Moves.bind_get
  intro t _
  split
  · exact Moves.pure fun _ _ => trivial
  · dsimp only
    split
    · split
      · exact Moves.throw
      · apply Moves.bind_await
        split
        · exact Moves.throw
        · exact Moves.pure fun _ _ => trivial
    · exact Moves.pure fun _ _ => trivial

/-! ## Saving -/

omit hG in
theorem placed_of_write {s : Region} {handle : RegionHandle} {data : List UInt8} (hs : s.Sound)
    (hhandle : s.handle = some handle) (hne : data ≠ []) (hle : data.length ≤ maxChunkSize)
    (hroom : (handle.place data).toNat + sectorsOf data < 2 ^ 32) :
    (s.writeSectors (handle.place data) (handle.place data + UInt32.ofNat (sectorsOf data)) (padded data)).Placed
      (handle.place data) data := by
  obtain ⟨f, hfile, hsound⟩ := hs handle hhandle
  obtain ⟨hfirst, hfree⟩ := hsound.place_free hne hle hroom
  have hend : (handle.place data + UInt32.ofNat (sectorsOf data)).toNat =
      (handle.place data).toNat + sectorsOf data := by
    rw [UInt32.toNat_add, toNat_sectorsOf hle]
    exact Nat.mod_eq_of_lt hroom
  have hpad : padded data ≠ [] := List.append_ne_nil_of_left_ne_nil hne _
  refine ⟨hne, hle, hfirst, hroom, fun handle' h => ?_, fun handle' h => ?_, fun g hg => ?_, fun g hg => ?_⟩
  · obtain ⟨_, h', rfl⟩ := Option.map_eq_some_iff.mp h
    rw [show (s.writeFile _ _).handle = s.handle from rfl, hhandle] at h'
    cases h'
    exact hfree
  · obtain ⟨_, _, rfl⟩ := Option.map_eq_some_iff.mp h
    rw [toNat_max_uint32, hend]
    exact Nat.le_max_right _ _
  · obtain ⟨_, _, rfl⟩ := Option.map_eq_some_iff.mp hg
    exact ByteFile.read_write_front _ _ hne
  · obtain ⟨_, _, rfl⟩ := Option.map_eq_some_iff.mp hg
    rw [ByteFile.len_write hpad, length_padded, Nat.add_mul]
    exact Nat.le_max_right _ _

/-- What is left of the handle once a chunk write has ended. -/
def SameTable (handle : RegionHandle) (s : Region) : Prop :=
  ∃ handle', s.handle = some handle' ∧ handle'.header = handle.header ∧ handle'.headerDirty = handle.headerDirty

omit hG in
theorem SameTable.writeSectors {handle : RegionHandle} {s : Region} (h : s.handle = some handle) (off endSector : UInt32)
    (bytes : List UInt8) : SameTable handle (s.writeSectors off endSector bytes) := by
  refine ⟨{ handle with fileSectors := max handle.fileSectors endSector }, ?_, rfl, rfl⟩
  unfold Region.writeSectors mapHandle writeFile
  rw [h]
  rfl

omit hG in
theorem writeChunkData_moves {C : Region → Prop} (w : ChunkWrite) (handle : RegionHandle) {data : List UInt8}
    (hne : data ≠ []) (hle : data.length ≤ maxChunkSize) (hwrote : ∀ s, C s → G s (.wrote data)) :
    Moves (Moved G) (fun s => s.Sound ∧ s.handle = some handle ∧ C s)
      (attempt (writeChunkData w (handle.place data) data))
      fun r s => SameTable handle s ∧ (r = .ok () → s.Sound ∧ s.Placed (handle.place data) data) := by
  intro s ⟨hs, hhandle, hc⟩
  unfold writeChunkData
  rw [if_neg (Nat.not_le.mpr (sectorsOf_lt hle))]
  by_cases hroom : (handle.place data).toNat + sectorsOf data ≥ 2 ^ 32
  · rw [if_pos hroom]
    refine ⟨.refl, fun r hr => ?_⟩
    cases hr
    exact ⟨⟨handle, hhandle, rfl, rfl⟩, fun h => by cases h⟩
  rw [if_neg hroom]
  have hroom := Nat.lt_of_not_le hroom
  have hmoved : ∀ endSector n,
      Moved G s (s.writeSectors (handle.place data) endSector ((padded data).take n)) := fun endSector n =>
    ⟨_, hwrote s hc, .wrote endSector n hhandle hne hle hroom⟩
  obtain ⟨fate, landed, grown⟩ := w
  have hpart : ∃ endSector, (if grown then s.writeSectors (handle.place data)
      (handle.place data + UInt32.ofNat (sectorsOf data)) ((padded data).take landed)
      else s.writeFile ((handle.place data).toNat * sectorSize) ((padded data).take landed)) =
      s.writeSectors (handle.place data) endSector ((padded data).take landed) := by
    cases grown with
    | true => exact ⟨_, rfl⟩
    | false => exact ⟨0, writeFile_eq_writeSectors s _ _⟩
  obtain ⟨endSector, hpart⟩ := hpart
  cases fate with
  | done =>
    have hfull := hmoved (handle.place data + UInt32.ofNat (sectorsOf data)) (padded data).length
    rw [List.take_length] at hfull
    refine ⟨.single hfull, fun r hr => ⟨SameTable.writeSectors hhandle _ _ _, fun _ => ?_⟩⟩
    exact ⟨hfull.sound hs, placed_of_write hs hhandle hne hle hroom⟩
  | failed e =>
    have hmoved := hmoved endSector landed
    have hsame := SameTable.writeSectors hhandle (handle.place data) endSector ((padded data).take landed)
    rw [← hpart] at hmoved hsame
    refine ⟨.single hmoved, fun r hr => ?_⟩
    cases hr
    exact ⟨hsame, fun h => by cases h⟩
  | cancelled =>
    have hmoved := hmoved endSector landed
    rw [← hpart] at hmoved
    refine ⟨.single hmoved, fun r hr => ?_⟩
    cases hr

theorem saveChunkData_moves {C : Region → Prop} (c : SaveScript) (index : Fin chunksPerRegion) (status : ChunkStatus)
    {data : List UInt8} (hne : data ≠ []) (s₀ : Region) (hs : s₀.Sound) (hC : s₀.handle.isSome → C s₀)
    (hopen : ∀ (s : Region) f handle, s.file = some f → readRegion f = .ok (some handle) → C (s.insertOpened handle))
    (hwrote : ∀ s, data.length ≤ maxChunkSize → C s → G s (.wrote data))
    (hsaved : ∀ s, data.length ≤ maxChunkSize → G s (.saved data)) :
    Moves (Moved G) (fun s => s = s₀) (saveChunkData c index data status) fun _ _ => True := by
  unfold saveChunkData encodeChunk
  by_cases hle : data.length > maxChunkSize
  · rw [if_pos hle]
    exact Moves.bind (Q := fun _ _ => False) Moves.throw fun _ _ h => h.elim
  rw [if_neg hle]
  have hle := Nat.le_of_not_lt hle
  apply Moves.bind (Q := fun _ s => s = s₀) (Moves.pure fun _ h => h)
  intro _
  apply Moves.bind_get
  intro t ht
  subst ht
  apply Moves.bind (getOrOpen_moves hG c.opening t hs hC hopen)
  intro handle
  -- a handle opened for this save alone is clean, so giving it back loses nothing
  have hclean : (t.handle.isNone && handle.loadedChunkCount == 0) = true →
      (t.handle = none → handle.headerDirty = false) → handle.headerDirty = false := fun h hd => by
    rw [Bool.and_eq_true, Option.isNone_iff_eq_none] at h
    exact hd h.1
  generalize (t.handle.isNone && handle.loadedChunkCount == 0) = lastUse at hclean
  apply Moves.bind (Q := fun r s => (SameTable handle s ∧ (r = .ok () → s.Sound ∧ s.Placed (handle.place data) data)) ∧
    (lastUse = true → handle.headerDirty = false))
  · intro s ⟨hsound, hsome, hc, hd⟩
    obtain ⟨hmoves, hpost⟩ := writeChunkData_moves c.chunk handle hne hle (fun s => hwrote s hle) s ⟨hsound, hsome, hc⟩
    exact ⟨hmoves, fun r hr => ⟨hpost r hr, fun h => hclean h hd⟩⟩
  intro r
  cases r with
  | error e =>
    cases lastUse with
    | false => exact Moves.throw
    | true =>
      show Moves _ _ (Async.modify Region.remove >>= fun _ => Async.throw e) _
      apply Moves.bind (Q := fun _ _ => True)
      · apply Moves.modify
        · intro s ⟨⟨⟨handle', hsome, _, hdirty⟩, _⟩, hd⟩
          exact Moved.free hG rfl (.closed hsome (Or.inl (hdirty.trans (hd rfl))))
        · exact fun _ _ => trivial
      · exact fun _ => Moves.throw
  | ok u =>
    let entry : ChunkEntry := ⟨handle.place data, UInt32.ofNat data.length, status⟩
    apply Moves.bind (Q := fun _ s => Holds (handle.header.set index entry) s)
    · apply Moves.modify
      · intro s ⟨⟨⟨handle', hsome, _, _⟩, hpost⟩, _⟩
        exact ⟨_, hsaved s hle, .saved index _ data status (by rw [hsome]; rfl) (hpost rfl).2⟩
      · intro s ⟨⟨⟨handle', hsome, htable, _⟩, _⟩, _⟩
        exact ⟨_, congrArg (Option.map _) hsome, congrArg (RegionHeader.set · index entry) htable⟩
    intro _
    cases lastUse with
    | false => exact Moves.pure fun _ _ => trivial
    | true =>
      show Moves _ _ (writeHeader c.table (handle.header.set index entry) >>= fun _ =>
        Async.modify (fun s => (s.mapHandle fun handle => { handle with headerDirty := false }).remove) >>= fun _ =>
          Pure.pure true) _
      apply Moves.bind (writeHeader_moves hG c.table (handle.header.set index entry))
      intro _
      apply Moves.bind (Q := fun _ _ => True)
      · apply Moves.modify
        · intro s ⟨⟨handle', hsome, htable⟩, hstored⟩
          rw [← htable] at hstored
          exact Moved.free hG rfl (.closed hsome (Or.inr hstored))
        · exact fun _ _ => trivial
      · exact fun _ => Moves.pure fun _ _ => trivial

end

/-! ## The manager -/

namespace RegionManager

theorem at'_apply {α : Type} (r r' : RegionPos) (x : RegionM α) (m : RegionManager) :
    (at' r x m).2 r' = if r' = r then (x (m r)).2 else m r' := Function.update_apply m r _ r'

/-- The regions `close_all` takes, with their handles. -/
def taken (m : RegionManager) (order : List (RegionPos × TableWrite)) : List (RegionPos × RegionHandle × TableWrite) :=
  order.filterMap fun (r, w) => (m r).handle.map fun handle => (r, handle, w)

def dirty (m : RegionManager) (r : RegionPos) : Bool := (m r).handle.any fun handle => handle.headerDirty

/-- `close_all` dropped at a table write has lost that region's table, unless the table had
reached the file, and every dirty region it had still to come to. -/
def SafeClose (m : RegionManager) : List (RegionPos × TableWrite) → Prop
  | [] => True
  | (r, w) :: rest =>
    if m.dirty r = true ∧ w.fate = .cancelled then w.landed = true ∧ ∀ x ∈ rest, m.dirty x.1 = false
    else SafeClose m rest

theorem closeTaken_cons_clean {r : RegionPos} {handle : RegionHandle} (w : TableWrite) (h : handle.headerDirty = false)
    (rest : List (RegionPos × RegionHandle × TableWrite)) (e : Option IoError) (m : RegionManager) :
    closeTaken ((r, handle, w) :: rest) e m = closeTaken rest e m := by
  simp only [closeTaken, h, Bool.false_eq_true, ite_false]

theorem closeTaken_cons_cancelled {r : RegionPos} {handle : RegionHandle} {w : TableWrite} (h : handle.headerDirty = true)
    (hw : w.fate = .cancelled) (rest : List (RegionPos × RegionHandle × TableWrite)) (e : Option IoError)
    (m : RegionManager) :
    (closeTaken ((r, handle, w) :: rest) e m).2 = Function.update m r (putBack w handle (m r)) := by
  obtain ⟨fate, landed⟩ := w
  subst hw
  simp only [closeTaken, h, ite_true]
  rfl

theorem closeTaken_cons_dirty {r : RegionPos} {handle : RegionHandle} {w : TableWrite} (h : handle.headerDirty = true)
    (hw : w.fate ≠ .cancelled) (rest : List (RegionPos × RegionHandle × TableWrite)) (e : Option IoError)
    (m : RegionManager) :
    ∃ e', closeTaken ((r, handle, w) :: rest) e m =
      closeTaken rest e' (Function.update m r (putBack w handle (m r))) := by
  obtain ⟨fate, landed⟩ := w
  cases fate with
  | done =>
    refine ⟨e, ?_⟩
    simp only [closeTaken, h, ite_true]
    rfl
  | failed e₁ =>
    refine ⟨e.or (some e₁), ?_⟩
    simp only [closeTaken, h, ite_true]
    let m₁ := Function.update m r (writeHeader ⟨.failed e₁, landed⟩ handle.header (m r)).2
    show closeTaken rest _ (Function.update m₁ r ((m₁ r).insert handle)) = _
    rw [show m₁ r = _ from Function.update_self .., Function.update_idem]
    rfl
  | cancelled => exact absurd rfl hw

section
variable {G : Region → RegionEvent → Prop} (hG : ∀ s ev, ev.isFree = true → G s ev)
include hG

theorem flushAll_moves : ∀ (order : List (RegionPos × TableWrite)) (m : RegionManager) (r : RegionPos),
    Relation.ReflTransGen (Moved G) (m r) ((flushAll order m).2 r)
  | [], _, _ => .refl
  | (r₀, w) :: rest, m, r => by
    have hhead : Relation.ReflTransGen (Moved G) (m r) ((at' r₀ (flushRegion w) m).2 r) := by
      rw [at'_apply]
      by_cases hr : r = r₀
      · rw [if_pos hr, hr]
        exact (flushRegion_moves hG w (m r₀) trivial).1
      · rw [if_neg hr]
    show Relation.ReflTransGen (Moved G) (m r) ((Async.bind (at' r₀ (flushRegion w)) (fun _ => flushAll rest) m).2 r)
    unfold Async.bind
    rcases hms : at' r₀ (flushRegion w) m with ⟨_ | _ | _, m₁⟩ <;> rw [hms] at hhead
    · exact hhead.trans (flushAll_moves rest m₁ r)
    · exact hhead
    · exact hhead

theorem drop_moves {s : Region} (h : s.handle.any (fun handle => handle.headerDirty) = false ∨ ∀ s, G s .lost) :
    Relation.ReflTransGen (Moved G) s s.remove := by
  rcases h with hclean | hall
  · cases hhandle : s.handle with
    | none => rw [remove_eq hhandle]
    | some handle =>
      rw [hhandle] at hclean
      exact .single (Moved.free hG rfl (.closed hhandle (Or.inl hclean)))
  · exact .single ⟨.lost, hall s, .lost⟩

/-- The loop of `close_all`, on the regions of `order` and on the others. -/
theorem closeTaken_moves (m₀ : RegionManager) : ∀ (order : List (RegionPos × TableWrite)) (e : Option IoError)
    (m : RegionManager), (order.map Prod.fst).Nodup → (∀ x ∈ order, m x.1 = (m₀ x.1).remove) →
    (SafeClose m₀ order ∨ ∀ s, G s .lost) → ∀ r,
    (r ∈ order.map Prod.fst → Relation.ReflTransGen (Moved G) (m₀ r) ((closeTaken (taken m₀ order) e m).2 r)) ∧
      (r ∉ order.map Prod.fst → (closeTaken (taken m₀ order) e m).2 r = m r)
  | [], _, _, _, _, _, _ => ⟨fun h => absurd h List.not_mem_nil, fun _ => rfl⟩
  | (r₀, w) :: rest, e, m, hnd, hm, hlost, r => by
    rw [List.map_cons, List.nodup_cons] at hnd
    rw [List.map_cons, List.mem_cons]
    have hm₀ : m r₀ = (m₀ r₀).remove := hm (r₀, w) (List.mem_cons_self ..)
    have hrest : ∀ x ∈ rest, m x.1 = (m₀ x.1).remove := fun x hx => hm x (List.mem_cons_of_mem _ hx)
    have hne : ∀ x ∈ rest, x.1 ≠ r₀ := fun x hx h => hnd.1 (List.mem_map.mpr ⟨x, hx, h⟩)
    cases hhandle : (m₀ r₀).handle with
    | none =>
      have htaken : taken m₀ ((r₀, w) :: rest) = taken m₀ rest := by simp [taken, hhandle]
      have hclean : m₀.dirty r₀ = false := by simp [dirty, hhandle]
      have hlost : SafeClose m₀ rest ∨ ∀ s, G s .lost := by
        refine hlost.imp_left fun h => ?_
        unfold SafeClose at h
        rwa [if_neg (by simp [hclean])] at h
      rw [htaken]
      obtain ⟨hin, hout⟩ := closeTaken_moves m₀ rest e m hnd.2 hrest hlost r
      refine ⟨fun hr => ?_, fun hr => hout fun h => hr (Or.inr h)⟩
      rcases hr with hr | hr
      · rw [hr] at hout ⊢
        rw [hout hnd.1, hm₀, remove_eq hhandle]
      · exact hin hr
    | some handle =>
      have htaken : taken m₀ ((r₀, w) :: rest) = (r₀, handle, w) :: taken m₀ rest := by simp [taken, hhandle]
      have hdirty₀ : m₀.dirty r₀ = handle.headerDirty := by simp [dirty, hhandle]
      rw [htaken]
      by_cases hdirty : handle.headerDirty = true
      · by_cases hw : w.fate = .cancelled
        · rw [closeTaken_cons_cancelled hdirty hw, Function.update_apply]
          have hsafe : (w.landed = true ∧ ∀ x ∈ rest, m₀.dirty x.1 = false) ∨ ∀ s, G s .lost := by
            refine hlost.imp_left fun h => ?_
            unfold SafeClose at h
            rwa [if_pos ⟨hdirty₀.trans hdirty, hw⟩] at h
          refine ⟨fun hr => ?_, fun hr => if_neg fun h => hr (Or.inl h)⟩
          rcases hr with hr | hr
          · rw [if_pos hr, hr, hm₀]
            exact putBack_moves hG w hhandle (hsafe.imp_left fun h _ => h.1)
          · obtain ⟨x, hx, rfl⟩ := List.mem_map.mp hr
            rw [if_neg (hne x hx), hrest x hx]
            exact drop_moves hG (hsafe.imp_left fun h => h.2 x hx)
        · obtain ⟨e', he'⟩ := closeTaken_cons_dirty hdirty hw (taken m₀ rest) e m
          have hlost : SafeClose m₀ rest ∨ ∀ s, G s .lost := by
            refine hlost.imp_left fun h => ?_
            unfold SafeClose at h
            rwa [if_neg fun h => hw h.2] at h
          rw [he']
          obtain ⟨hin, hout⟩ := closeTaken_moves m₀ rest e' (Function.update m r₀ (putBack w handle (m r₀))) hnd.2
            (fun x hx => by rw [Function.update_of_ne (hne x hx)]; exact hrest x hx) hlost r
          refine ⟨fun hr => ?_, fun hr => ?_⟩
          · rcases hr with hr | hr
            · rw [hr] at hout ⊢
              rw [hout hnd.1, Function.update_self, hm₀]
              exact putBack_moves hG w hhandle (Or.inl fun h => absurd h hw)
            · exact hin hr
          · rw [hout fun h => hr (Or.inr h), Function.update_of_ne fun h => hr (Or.inl h)]
      · have hclean : handle.headerDirty = false := Bool.eq_false_iff.mpr hdirty
        have hlost : SafeClose m₀ rest ∨ ∀ s, G s .lost := by
          refine hlost.imp_left fun h => ?_
          unfold SafeClose at h
          rwa [if_neg fun h => hdirty (hdirty₀ ▸ h.1)] at h
        rw [closeTaken_cons_clean w hclean]
        obtain ⟨hin, hout⟩ := closeTaken_moves m₀ rest e m hnd.2 hrest hlost r
        refine ⟨fun hr => ?_, fun hr => hout fun h => hr (Or.inr h)⟩
        rcases hr with hr | hr
        · rw [hr] at hout ⊢
          rw [hout hnd.1, hm₀]
          exact drop_moves hG (Or.inl (by rw [hhandle]; exact hclean))
        · exact hin hr

theorem closeAll_moves {order : List (RegionPos × TableWrite)} {m : RegionManager} (he : Enumerates order m)
    (hlost : SafeClose m order ∨ ∀ s, G s .lost) (r : RegionPos) :
    Relation.ReflTransGen (Moved G) (m r) ((closeAll order m).2 r) := by
  have hloop := closeTaken_moves hG m order none (fun r => (m r).remove) he.1 (fun _ _ => rfl) hlost r
  have hres : (closeAll order m).2 = (closeTaken (taken m order) none fun r => (m r).remove).2 := by
    show (Async.bind (closeTaken (taken m order) none) _ fun r => (m r).remove).2 = _
    unfold Async.bind
    rcases closeTaken (taken m order) none fun r => (m r).remove with ⟨(_ | _) | _ | _, m₁⟩ <;> rfl
  rw [hres]
  by_cases hr : r ∈ order.map Prod.fst
  · exact hloop.1 hr
  · rw [hloop.2 hr, remove_eq]
    exact Option.not_isSome_iff_eq_none.mp fun h => hr ((he.2 r).mpr h)

/-! ## Steps -/

/-- What `G` has to allow for an operation: the chunk writes of a save, and the handles that
a release or a close drops. -/
def Allowed (G : Region → RegionEvent → Prop) (m : RegionManager) : RegionOp → Prop
  | .saveChunkData pos compressed _ _ => ∃ C : Region → Prop,
    ((m (.fromChunk pos)).handle.isSome → C (m (.fromChunk pos))) ∧
    (∀ (s : Region) f handle, s.file = some f → readRegion f = .ok (some handle) → C (s.insertOpened handle)) ∧
    (∀ s, compressed.bytes.length ≤ maxChunkSize → C s → G s (.wrote compressed.bytes)) ∧
    ∀ s, compressed.bytes.length ≤ maxChunkSize → G s (.saved compressed.bytes)
  | .releaseChunk pos w => SafeRelease (m (.fromChunk pos)) w ∨ ∀ s, G s .lost
  | .closeAll order => SafeClose m order ∨ ∀ s, G s .lost
  | _ => True

omit hG in
theorem at'_moves {α : Type} {r r' : RegionPos} {x : RegionM α} {m : RegionManager}
    (h : Relation.ReflTransGen (Moved G) (m r) (x (m r)).2) :
    Relation.ReflTransGen (Moved G) (m r') ((at' r x m).2 r') := by
  rw [at'_apply]
  by_cases hr : r' = r
  · rw [if_pos hr, hr]
    exact h
  · rw [if_neg hr]

/-- Every operation, with any script, takes every region from event to event. -/
theorem Step.moves {m m' : RegionManager} {op : RegionOp} (h : Step m op m') (hs : ∀ r, (m r).Sound)
    (ha : Allowed G m op) (r : RegionPos) : Relation.ReflTransGen (Moved G) (m r) (m' r) := by
  obtain ⟨hadm, rfl⟩ := h
  cases op with
  | saveChunkData pos compressed status script =>
    obtain ⟨C, hC, hopen, hwrote, hsaved⟩ := ha
    exact at'_moves (saveChunkData_moves hG script _ status compressed.ne_nil _ (hs _) hC hopen hwrote hsaved _ rfl).1
  | acquireChunk pos opening => exact at'_moves (acquireChunk_moves hG opening _ _ (hs _) _ rfl).1
  | releaseChunk pos table => exact at'_moves (releaseChunk_moves hG table _ ha _ rfl).1
  | loadChunk pos read => exact at'_moves (loadChunk_moves read _ _ trivial).1
  | clearCorruptChunkIfUnchanged r' index expectedEntry script =>
    exact at'_moves (clearCorruptChunkIfUnchanged_moves hG script index expectedEntry _ trivial).1
  | flushAll order => exact flushAll_moves hG order m r
  | closeAll order => exact closeAll_moves hG hadm ha r

omit hG in
/-- The invariant rule: what holds at the start and survives each allowed event holds after
every run. -/
theorem run_invariant {C : RegionManager → RegionOp → Prop} {I : Region → Prop} {m m' : RegionManager}
    {ops : List RegionOp} (hrun : Run (Guarded C Step) m ops m') (hG : ∀ s ev, ev.isFree = true → G s ev)
    (hC : ∀ m op, C m op → Allowed G m op) (h0 : ∀ r, (m r).Sound ∧ I (m r))
    (hI : ∀ s t ev, s.Sound → I s → G s ev → Does s ev t → I t) : ∀ r, (m' r).Sound ∧ I (m' r) := by
  apply hrun.invariant_of_guarded h0
  intro m op m' hm hc hstep r
  have hmoves := Step.moves hG hstep (fun r => (hm r).1) (hC m op hc) r
  generalize m' r = t at hmoves
  induction hmoves with
  | refl => exact hm r
  | tail _ hmoved ih =>
    obtain ⟨ev, hg, hd⟩ := hmoved
    exact ⟨hd.sound ih.1, hI _ _ ev ih.1 ih.2 hg hd⟩

end

end RegionManager

/-! ## Operations nothing goes wrong in -/

open RegionManager

theorem writeChunkData_done {w : ChunkWrite} {off : UInt32} {data : List UInt8} (hw : w.fate = .done)
    (hle : data.length ≤ maxChunkSize) (hroom : off.toNat + sectorsOf data < 2 ^ 32) (s : Region) :
    writeChunkData w off data s =
      (.ok (), s.writeSectors off (off + UInt32.ofNat (sectorsOf data)) (padded data)) := by
  unfold writeChunkData
  rw [if_neg (Nat.not_le.mpr (sectorsOf_lt hle)), if_neg (Nat.not_le.mpr hroom), hw]
  rfl

theorem saveChunkData_done {s : Region} {handle : RegionHandle} {c : SaveScript} {data : List UInt8}
    (index : Fin chunksPerRegion) (status : ChunkStatus) (hhandle : s.handle = some handle)
    (hc : c.chunk.fate = .done) (hle : data.length ≤ maxChunkSize)
    (hroom : (handle.place data).toNat + sectorsOf data < 2 ^ 32) :
    (saveChunkData c index data status s).2 =
      (s.writeSectors (handle.place data) (handle.place data + UInt32.ofNat (sectorsOf data))
        (padded data)).setPendingHeaderEntry index ⟨handle.place data, UInt32.ofNat data.length, status⟩
        (some data) := by
  obtain ⟨file, handle', lastTable, ledger⟩ := s
  cases hhandle
  have hwrite := writeChunkData_done hc hle hroom ⟨file, some handle, lastTable, ledger⟩
  unfold saveChunkData encodeChunk
  rw [if_neg (Nat.not_lt.mpr hle)]
  show (Async.bind (Async.attempt (writeChunkData c.chunk (handle.place data) data)) _ _).2 = _
  unfold Async.bind Async.attempt
  rw [hwrite]
  rfl

def smoothOpening : Opening := ⟨.done, .done, false, .done, none⟩

def smoothTable : TableWrite := ⟨.done, true⟩

def smoothSave : SaveScript := ⟨smoothOpening, ⟨.done, 0, true⟩, smoothTable⟩

/-- A region just made, with one chunk loaded. -/
def freshRegion : Region :=
  ⟨some (ByteFile.empty.write 0 newRegionBytes), some ⟨.new, 1, false, firstDataSector⟩, some .new, .empty⟩

theorem acquireChunk_fresh (index : Fin chunksPerRegion) :
    (acquireChunk smoothOpening index (Region.start none)).2 = freshRegion := by
  show Region.mk (some (ByteFile.empty.write 0 (newRegionBytes.take newRegionBytes.length))) _ _ _ = _
  rw [List.take_length]
  rfl

theorem exec_saveChunkData (m : RegionManager) (pos : ChunkPos) (compressed : Frame) (status : ChunkStatus)
    (script : SaveScript) : m.exec (.saveChunkData pos compressed status script) (.fromChunk pos) =
      (saveChunkData script (RegionHeader.slot pos) compressed.bytes status (m (.fromChunk pos))).2 :=
  Function.update_self ..

theorem exec_acquireChunk (m : RegionManager) (pos : ChunkPos) (opening : Opening) :
    m.exec (.acquireChunk pos opening) (.fromChunk pos) =
      (acquireChunk opening (RegionHeader.slot pos) (m (.fromChunk pos))).2 :=
  Function.update_self ..

def firstChunk : ChunkPos := ⟨0, 0⟩
def secondChunk : ChunkPos := ⟨1, 0⟩
def origin : RegionPos := ⟨0, 0⟩

/-- The table after a first save of the first chunk. -/
def tableA : RegionHeader := RegionHeader.new.set (RegionHeader.slot firstChunk) ⟨3, 1, .full⟩

def savedRegion : Region :=
  ⟨some ((ByteFile.empty.write 0 newRegionBytes).write (3 * sectorSize) (padded [1])), some ⟨tableA, 1, true, 4⟩,
    some tableA, CommitStore.empty.put (RegionHeader.slot firstChunk) (some [1])⟩

theorem saved_fresh :
    (saveChunkData smoothSave (RegionHeader.slot firstChunk) [1] .full freshRegion).2 = savedRegion := by
  have hplace : (⟨.new, 1, false, firstDataSector⟩ : RegionHandle).place [1] = 3 := by decide +kernel
  rw [saveChunkData_done _ _ rfl rfl (by decide) (by rw [hplace]; decide), hplace]
  rfl

def acquiredManager : RegionManager :=
  (RegionManager.start fun _ => none).exec (.acquireChunk firstChunk smoothOpening)

def savedManager : RegionManager :=
  acquiredManager.exec (.saveChunkData firstChunk ⟨[1], by decide⟩ .full smoothSave)

theorem acquiredManager_origin : acquiredManager origin = freshRegion :=
  (exec_acquireChunk _ firstChunk _).trans (acquireChunk_fresh _)

theorem savedManager_origin : savedManager origin = savedRegion := by
  rw [← saved_fresh, ← acquiredManager_origin]
  exact exec_saveChunkData acquiredManager firstChunk _ _ _

theorem savedManager_other {r : RegionPos} (hr : r ≠ origin) : savedManager r = Region.start none := by
  show Function.update (Function.update _ origin _) origin _ r = _
  rw [Function.update_of_ne hr, Function.update_of_ne hr]
  rfl

end Foton

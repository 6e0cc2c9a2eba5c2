import Foton.Region.Crash

/-!
# Tables that are accepted again

The table in memory is always valid for the file it belongs to. What a reload
reads is that table but for sizes of exactly `maxChunkSize`, which `encode_chunk`
lets through and the 24 bits of the table do not hold.
-/

namespace Foton

open RegionManager Region

/-- The bytes of the table decode to its entries and pass the checks of a reload. -/
def Accepted (handle : RegionHandle) (f : ByteFile) : Prop :=
  ∃ t, RegionHeader.fromBytes handle.header.toBytes = .ok t ∧
    (∀ i, (handle.header.get i).exists' = true → t.get i = handle.header.get i) ∧
    (∀ i, (t.get i).exists' = (handle.header.get i).exists') ∧
    validateRegionEntries t (UInt32.ofNat f.sectors) = .ok ()

/-- A chunk of the largest length that is let through comes back with size zero. -/
theorem ChunkEntry.reloaded_max {e : ChunkEntry} (h : e.sizeBytes.toNat = maxChunkSize) :
    e.reloaded.sizeBytes = 0 := by
  unfold reloaded
  rw [h]
  rfl

theorem accepted_iff {handle : RegionHandle} {f : ByteFile} (hs : SoundHandle handle f) :
    Accepted handle f ↔
      ∀ i, (handle.header.get i).exists' = true → (handle.header.get i).sizeBytes.toNat ≠ maxChunkSize := by
  refine ⟨fun ⟨t, ht, hsame, _, _⟩ i hx hmax => ?_, fun hsizes => ?_⟩
  · rw [RegionHeader.fromBytes_toBytes] at ht
    cases ht
    have hsize := hsame i hx
    rw [RegionHeader.get_reloaded] at hsize
    have hzero := ChunkEntry.reloaded_max hmax
    rw [hsize] at hzero
    rw [hzero] at hmax
    exact absurd hmax (by decide)
  · have hsame : handle.header.reloaded = handle.header := hs.tidy.reloaded_eq fun i hx =>
      Nat.lt_of_le_of_ne (hs.tidy i).2 (hsizes i hx)
    refine ⟨handle.header, ?_, fun _ _ => rfl, fun _ => rfl, ?_⟩
    · rw [RegionHeader.fromBytes_toBytes, hsame]
    · rw [validateRegionEntries_ok, ByteFile.toNat_sectors hs.framed.len_le]
      exact hs.valid

/-- An accepted table, once written, is what the next opening of the file finds. -/
theorem Accepted.reopened {handle : RegionHandle} {f : ByteFile} (hs : SoundHandle handle f) (ha : Accepted handle f) :
    readRegion (f.write fileHeaderSize handle.header.toBytes) =
      .ok (some ⟨handle.header, 0, false, UInt32.ofNat f.sectors⟩) := by
  have hsame : handle.header.reloaded = handle.header := hs.tidy.reloaded_eq fun i hx =>
    Nat.lt_of_le_of_ne (hs.tidy i).2 ((accepted_iff hs).mp ha i hx)
  have hsectors : (f.write fileHeaderSize handle.header.toBytes).sectors = f.sectors := by
    unfold ByteFile.sectors
    rw [hs.framed.len_writeTable]
  rw [readRegion_framed (hs.framed.writeTable _) (ByteFile.table_writeTable f handle.header) (by
    rw [hsame, hsectors]
    exact hs.valid), hsame, hsectors]

/-! ## Runs -/

/-- No save of a chunk as long as `maxChunkSize`. -/
def Shorter : RegionOp → Prop
  | .saveChunkData _ compressed _ _ => compressed.bytes.length ≠ maxChunkSize
  | _ => True

def SizeEvent (_ : Region) : RegionEvent → Prop
  | .saved data => data.length ≠ maxChunkSize
  | _ => True

theorem sizeEvent_free (s : Region) (ev : RegionEvent) (h : ev.isFree = true) : SizeEvent s ev := by
  cases ev with
  | saved data => cases h
  | _ => trivial

theorem Shorter.allowed (m : RegionManager) (op : RegionOp) (h : Shorter op) : Allowed SizeEvent m op := by
  cases op with
  | saveChunkData pos compressed status script =>
    exact ⟨fun _ => True, fun _ => trivial, fun _ _ _ _ _ => trivial, fun _ _ _ => trivial, fun _ _ => h⟩
  | releaseChunk pos table => exact Or.inr fun _ => trivial
  | closeAll order => exact Or.inr fun _ => trivial
  | _ => trivial

theorem sound_run {files : RegionPos → Option ByteFile} {ops : List RegionOp} {m : RegionManager}
    (hrun : Run Step (RegionManager.start files) ops m) (r : RegionPos) : (m r).Sound := by
  have hall : ∀ (m : RegionManager) (op : RegionOp), True → Allowed (fun _ _ => True) m op := by
    intro m op _
    cases op with
    | saveChunkData pos compressed status script =>
      exact ⟨fun _ => True, fun _ => trivial, fun _ _ _ _ _ => trivial, fun _ _ _ => trivial, fun _ _ => trivial⟩
    | releaseChunk pos table => exact Or.inr fun _ => trivial
    | closeAll order => exact Or.inr fun _ => trivial
    | _ => trivial
  exact (run_invariant (I := fun _ => True) (hrun.mono fun _ _ _ h => ⟨trivial, h⟩) (fun _ _ _ => trivial) hall
    (fun r => ⟨start_sound (files r), trivial⟩) (fun _ _ _ _ _ _ _ => trivial) r).1

/-- **Tables are accepted again** exactly when no chunk in them is `maxChunkSize` long, so after
every run that saves shorter chunks only. -/
theorem written_table_accepted {files : RegionPos → Option ByteFile} {ops : List RegionOp} {m : RegionManager}
    (hrun : Run Step (RegionManager.start files) ops m) (r : RegionPos) {handle : RegionHandle} {f : ByteFile}
    (hhandle : (m r).handle = some handle) (hfile : (m r).file = some f) :
    (Accepted handle f ↔
      ∀ i, (handle.header.get i).exists' = true → (handle.header.get i).sizeBytes.toNat ≠ maxChunkSize) ∧
    ((∀ op ∈ ops, Shorter op) → Accepted handle f) := by
  obtain ⟨g, hg, hs⟩ := sound_run hrun r handle hhandle
  rw [hfile] at hg
  cases hg
  refine ⟨accepted_iff hs, fun hshort => (accepted_iff hs).mpr fun i _ => ?_⟩
  have hinv := run_invariant (hrun.guard hshort) sizeEvent_free Shorter.allowed
    (fun r => ⟨start_sound (files r), fun _ h => by cases h⟩)
    (fun s t ev _ hz hg hd => hd.sized hz fun data h => by subst h; exact hg) r
  exact Nat.ne_of_lt (hinv.2 handle hhandle i)

theorem saved_table_accepted :
    Accepted ⟨tableA, 1, true, 4⟩ ((ByteFile.empty.write 0 newRegionBytes).write (3 * sectorSize) (padded [1])) := by
  have hrun : Run Step (RegionManager.start fun _ => none)
      [.acquireChunk firstChunk smoothOpening, .saveChunkData firstChunk ⟨[1], by decide⟩ .full smoothSave]
      savedManager := .snoc (.snoc .nil ⟨trivial, rfl⟩) ⟨trivial, rfl⟩
  apply (written_table_accepted hrun origin (by rw [savedManager_origin]; rfl) (by rw [savedManager_origin]; rfl)).2
  intro op hop
  simp only [List.mem_cons, List.not_mem_nil, or_false] at hop
  rcases hop with rfl | rfl
  · trivial
  · exact show [(1 : UInt8)].length ≠ maxChunkSize by decide

/-! ## A chunk of the largest length -/

/-- `encode_chunk` lets the chunk through and the table does not hold its size. -/
theorem long_chunk_rejected :
    ¬ ∀ (ops : List RegionOp) (m : RegionManager), Run Step (RegionManager.start fun _ => none) ops m →
      ∀ r handle f, (m r).handle = some handle → (m r).file = some f → Accepted handle f := by
  intro hall
  obtain ⟨data, hlen⟩ : ∃ data : List UInt8, data.length = maxChunkSize :=
    ⟨List.replicate maxChunkSize 0, List.length_replicate⟩
  have hne : data ≠ [] := by
    intro h
    rw [h] at hlen
    exact absurd hlen (by decide)
  let op : RegionOp := .saveChunkData firstChunk ⟨data, hne⟩ .full smoothSave
  have hsectors : sectorsOf data = 4096 := by
    unfold sectorsOf
    rw [hlen]
    rfl
  have hplace : (⟨.new, 1, false, firstDataSector⟩ : RegionHandle).place data = 3 := by
    unfold RegionHandle.place
    rw [hsectors]
    decide +kernel
  have hsaved := saveChunkData_done (s := freshRegion) (c := smoothSave) (RegionHeader.slot firstChunk) .full rfl rfl
    (Nat.le_of_eq hlen) (by rw [hplace, hsectors]; decide)
  rw [hplace] at hsaved
  have hexec := exec_saveChunkData acquiredManager firstChunk ⟨data, hne⟩ .full smoothSave
  rw [show acquiredManager (.fromChunk firstChunk) = freshRegion from acquiredManager_origin, hsaved] at hexec
  have hm : acquiredManager.exec op origin = _ := hexec
  have hrun : Run Step (RegionManager.start fun _ => none) [.acquireChunk firstChunk smoothOpening, op]
      (acquiredManager.exec op) := .snoc (.snoc .nil ⟨trivial, rfl⟩) ⟨trivial, rfl⟩
  obtain ⟨g, hg, hs⟩ := sound_run hrun origin _ (by rw [hm]; rfl)
  have haccepted := hall _ _ hrun origin _ g (by rw [hm]; rfl) hg
  refine (accepted_iff hs).mp haccepted (RegionHeader.slot firstChunk) ?_ ?_
  · rw [RegionHeader.get_set, if_pos rfl]
    rfl
  · rw [RegionHeader.get_set, if_pos rfl]
    show (UInt32.ofNat data.length).toNat = maxChunkSize
    rw [hlen]
    rfl

end Foton

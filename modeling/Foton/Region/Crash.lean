import Foton.Region.Steps

/-!
# What a crash leaves

The table on disk lags behind the table in memory, and the allocator reads the
one in memory alone. As long as no save finds its first gap in sectors that the
table on disk still names, the payloads of the table on disk are, after every
event, the ones its entries were created with.
-/

namespace Foton

open RegionManager

/-! ## The condition -/

/-- The lowest gap of the table in memory has no sector of the table on disk. -/
def Region.GapClear (s : Region) (data : List UInt8) : Prop :=
  ∀ handle f t, s.handle = some handle → s.file = some f → f.table = some t →
    ∀ a, handle.header.FirstGap (sectorsOf data) a → t.Free a (sectorsOf data)

/-- The size of the chunk fits the table's field, and its place is clear. -/
def RegionManager.CrashSafe (m : RegionManager) : RegionOp → Prop
  | .saveChunkData pos compressed _ _ =>
    compressed.bytes.length ≠ maxChunkSize ∧ (m (.fromChunk pos)).GapClear compressed.bytes
  | _ => True

def CrashEvent (s : Region) : RegionEvent → Prop
  | .wrote data => s.GapClear data
  | .saved data => data.length ≠ maxChunkSize
  | _ => True

theorem crashEvent_free (s : Region) (ev : RegionEvent) (h : ev.isFree = true) : CrashEvent s ev := by
  cases ev with
  | wrote data => cases h
  | saved data => cases h
  | _ => trivial

theorem gapClear_opened {s : Region} {f : ByteFile} {handle : RegionHandle} (hfile : s.file = some f)
    (hread : readRegion f = .ok (some handle)) (data : List UInt8) : (s.insertOpened handle).GapClear data := by
  intro handle' f' t hhandle' hfile' ht a ha
  obtain ⟨-, htable, -⟩ := readRegion_some hread
  cases hhandle'
  rw [show (s.insertOpened handle).file = s.file from rfl, hfile] at hfile'
  cases hfile'
  rw [htable] at ht
  cases ht
  exact ha.1.2.1

theorem CrashSafe.allowed (m : RegionManager) (op : RegionOp) (h : m.CrashSafe op) : Allowed CrashEvent m op := by
  cases op with
  | saveChunkData pos compressed status script =>
    exact ⟨fun s => s.GapClear compressed.bytes, fun _ => h.2, fun s f handle hf hr => gapClear_opened hf hr _,
      fun _ _ hc => hc, fun _ _ => h.1⟩
  | releaseChunk pos table => exact Or.inr fun _ => trivial
  | closeAll order => exact Or.inr fun _ => trivial
  | _ => trivial

/-! ## The invariant -/

/-- What the history records of an entry is what the entry points at. `W` says whether the
history has a record of every entry. -/
def Recorded (W : Prop) (recorded found : Option (List UInt8)) : Prop :=
  (∀ p, recorded = some p → found = some p) ∧ (W → recorded.isSome)

theorem Recorded.keep {W : Prop} {recorded found found' : Option (List UInt8)} (h : Recorded W recorded found)
    (hk : ∀ p, found = some p → found' = some p) : Recorded W recorded found' :=
  ⟨fun p hp => hk p (h.1 p hp), h.2⟩

namespace Region

/-- Every existing entry of the table on disk points at what it was created with. -/
def Intact (W : Prop) (s : Region) : Prop :=
  ∀ f t, s.file = some f → f.table = some t → ∀ i, (t.get i).exists' = true →
    Recorded W (s.ledger.committed i) (f.payload (t.get i))

structure Kept (W : Prop) (s : Region) : Prop where
  disk : s.Intact W
  memory : ∀ handle f, s.handle = some handle → s.file = some f → ∀ i, (handle.header.get i).exists' = true →
    Recorded W (s.ledger.pending i) (f.payload (handle.header.get i))
  below : ∀ handle f t, s.handle = some handle → s.file = some f → f.table = some t → ∀ i, (t.get i).exists' = true →
    firstDataSector.toNat ≤ (t.get i).start ∧ (t.get i).stop ≤ handle.fileSectors.toNat

end Region

open Region

theorem Region.Intact.kept {W : Prop} {s : Region} (h : s.Intact W) (hnone : s.handle = none) : s.Kept W where
  disk := h
  memory handle f hh := by rw [hnone] at hh; cases hh
  below handle f t hh := by rw [hnone] at hh; cases hh

/-- Where the table on disk and the allocator's place for `data` meet. -/
theorem place_clear_iff {W : Prop} {s : Region} {handle : RegionHandle} {f : ByteFile} {t : RegionHeader}
    (hs : s.Sound) (hk : s.Kept W) (hhandle : s.handle = some handle) (hfile : s.file = some f)
    (ht : f.table = some t) {data : List UInt8} (hne : data ≠ []) (hle : data.length ≤ maxChunkSize)
    (hroom : (handle.place data).toNat + sectorsOf data < 2 ^ 32) :
    t.Free (handle.place data).toNat (sectorsOf data) ↔
      ∀ a, handle.header.FirstGap (sectorsOf data) a → t.Free a (sectorsOf data) := by
  obtain ⟨g, hg, hsound⟩ := hs handle hhandle
  have hn : UInt32.ofNat (sectorsOf data) ≠ 0 := fun h0 => by
    have hpos := sectorsOf_pos hne
    rw [← toNat_sectorsOf hle, h0] at hpos
    exact absurd hpos (by decide)
  have hn' := toNat_sectorsOf hle
  have hlt : (handle.header.findFreeSectors (UInt32.ofNat (sectorsOf data)) handle.fileSectors).toNat +
      (UInt32.ofNat (sectorsOf data)).toNat < 2 ^ 32 := by
    rw [hn']
    exact hroom
  refine ⟨fun hfree a ha => ?_, fun hgap => ?_⟩
  · have hplace := RegionHeader.findFreeSectors_of_firstGap hn hsound.ends hlt (by rw [hn']; exact ha)
    rw [← hplace]
    exact hfree
  · rcases RegionHeader.findFreeSectors_cases hn hsound.ends hlt with hend | hfirst
    · intro i hx
      right
      exact Nat.le_trans (hk.below handle f t hhandle hfile ht i hx).2 hend
    · rw [hn'] at hfirst
      exact hgap _ hfirst

theorem kept_insertOpened {W : Prop} {s : Region} {f : ByteFile} {handle : RegionHandle} (hk : s.Kept W)
    (hfile : s.file = some f) (hread : readRegion f = .ok (some handle)) : (s.insertOpened handle).Kept W := by
  obtain ⟨-, htable, hvalid, -, -, -, hsectors, -⟩ := readRegion_some hread
  refine ⟨hk.disk, fun handle' g hh hg i hx => ?_, fun handle' g t hh hg ht i hx => ?_⟩
  · cases hh
    rw [show (s.insertOpened handle).file = s.file from rfl, hfile] at hg
    cases hg
    exact hk.disk f handle.header hfile htable i hx
  · cases hh
    rw [show (s.insertOpened handle).file = s.file from rfl, hfile] at hg
    cases hg
    rw [htable] at ht
    cases ht
    have hr := hvalid.inRange i hx
    exact ⟨hr.data, by rw [hsectors]; exact hr.ends⟩

theorem intact_makeFile {W : Prop} (s : Region) (n : Nat) : (s.makeFile n).Intact W := by
  intro f t hf ht i hx
  cases hf
  rw [ByteFile.table_makeFile ht, RegionHeader.get_new] at hx
  cases hx

theorem kept_writeSectors {W : Prop} {s : Region} {handle : RegionHandle} {data : List UInt8} (endSector : UInt32)
    (n : Nat) (hs : s.Sound) (hk : s.Kept W) (hhandle : s.handle = some handle) (hne : data ≠ [])
    (hle : data.length ≤ maxChunkSize) (hroom : (handle.place data).toNat + sectorsOf data < 2 ^ 32)
    (hclear : s.GapClear data) : (s.writeSectors (handle.place data) endSector ((padded data).take n)).Kept W := by
  obtain ⟨f, hfile, hsound⟩ := hs handle hhandle
  obtain ⟨hfirst, hfree⟩ := hsound.place_free hne hle hroom
  let g := f.write ((handle.place data).toNat * sectorSize) ((padded data).take n)
  have hg : (s.writeSectors (handle.place data) endSector ((padded data).take n)).file = some g :=
    congrArg (Option.map _) hfile
  have hh : (s.writeSectors (handle.place data) endSector ((padded data).take n)).handle =
      some { handle with fileSectors := max handle.fileSectors endSector } := congrArg (Option.map _) hhandle
  have htable : g.table = f.table :=
    ByteFile.table_write hsound.framed.table_le hfirst (length_take_padded_le data n)
  have hpayload : ∀ e, e.Clear (handle.place data).toNat (sectorsOf data) → ∀ p, f.payload e = some p →
      g.payload e = some p :=
    fun e hc p hp => ByteFile.payload_write_clear hp (length_take_padded_le data n) hc
  refine ⟨fun g' t hg' ht i hx => ?_, fun handle' g' hh' hg' i hx => ?_, fun handle' g' t hh' hg' ht i hx => ?_⟩
  · rw [hg] at hg'
    cases hg'
    rw [htable] at ht
    have hplace := (place_clear_iff hs hk hhandle hfile ht hne hle hroom).mpr (hclear handle f t hhandle hfile ht)
    exact (hk.disk f t hfile ht i hx).keep (hpayload _ (hplace i hx))
  · rw [hg] at hg'
    cases hg'
    rw [hh] at hh'
    cases hh'
    exact (hk.memory handle f hhandle hfile i hx).keep (hpayload _ (hfree i hx))
  · rw [hg] at hg'
    cases hg'
    rw [hh] at hh'
    cases hh'
    rw [htable] at ht
    obtain ⟨hstart, hstop⟩ := hk.below handle f t hhandle hfile ht i hx
    refine ⟨hstart, ?_⟩
    rw [toNat_max_uint32]
    exact Nat.le_trans hstop (Nat.le_max_left _ _)

theorem kept_setPending {W : Prop} {s : Region} (index : Fin chunksPerRegion) {entry : ChunkEntry}
    {payload : Option (List UInt8)} (hk : s.Kept W)
    (hentry : entry.exists' = true → ∀ f, s.file = some f → Recorded W payload (f.payload entry)) :
    (s.setPendingHeaderEntry index entry payload).Kept W := by
  refine ⟨hk.disk, fun handle' f hh hf i hx => ?_, fun handle' f t hh hf ht i hx => ?_⟩
  · obtain ⟨handle, hhandle, rfl⟩ := Option.map_eq_some_iff.mp hh
    show Recorded W (if index = i then payload else s.ledger.pending i) _
    rw [RegionHeader.get_set] at hx ⊢
    by_cases hi : index = i
    · rw [if_pos hi] at hx ⊢
      rw [if_pos hi]
      exact hentry hx f hf
    · rw [if_neg hi] at hx ⊢
      rw [if_neg hi]
      exact hk.memory handle f hhandle hf i hx
  · obtain ⟨handle, hhandle, rfl⟩ := Option.map_eq_some_iff.mp hh
    exact hk.below handle f t hhandle hf ht i hx

theorem kept_writeTable {W : Prop} {s : Region} {handle : RegionHandle} (hs : s.Sound) (hz : s.Sized) (hk : s.Kept W)
    (hhandle : s.handle = some handle) : (s.writeTable handle.header).Kept W := by
  obtain ⟨f, hfile, hsound⟩ := hs handle hhandle
  have hfile' : (s.writeTable handle.header).file = some (f.write fileHeaderSize handle.header.toBytes) :=
    congrArg (Option.map _) hfile
  have hsame : handle.header.reloaded = handle.header :=
    hsound.tidy.reloaded_eq fun i _ => hz handle hhandle i
  have htable : (f.write fileHeaderSize handle.header.toBytes).table = some handle.header := by
    rw [ByteFile.table_writeTable, hsame]
  have hmemory : ∀ i, (handle.header.get i).exists' = true → Recorded W (s.ledger.pending i)
      ((f.write fileHeaderSize handle.header.toBytes).payload (handle.header.get i)) := fun i hx =>
    (hk.memory handle f hhandle hfile i hx).keep fun p hp =>
      ByteFile.payload_writeTable _ hp (hsound.valid.inRange i hx).data
  refine ⟨fun g t hg ht i hx => ?_, fun handle' g hh hg i hx => ?_, fun handle' g t hh hg ht i hx => ?_⟩
  · rw [hfile'] at hg
    cases hg
    rw [htable] at ht
    cases ht
    exact hmemory i hx
  · rw [hfile'] at hg
    cases hg
    rw [show (s.writeTable handle.header).handle = s.handle from rfl, hhandle] at hh
    cases hh
    exact hmemory i hx
  · rw [hfile'] at hg
    cases hg
    rw [show (s.writeTable handle.header).handle = s.handle from rfl, hhandle] at hh
    cases hh
    rw [htable] at ht
    cases ht
    exact ⟨(hsound.valid.inRange i hx).data, hsound.ends i hx⟩

theorem kept_mapHandle {W : Prop} {s : Region} {g : RegionHandle → RegionHandle} (hk : s.Kept W)
    (hg : ∀ handle, (g handle).header = handle.header ∧ (g handle).fileSectors = handle.fileSectors) :
    (s.mapHandle g).Kept W := by
  refine ⟨hk.disk, fun handle' f hh hf => ?_, fun handle' f t hh hf ht => ?_⟩
  · obtain ⟨handle, hhandle, rfl⟩ := Option.map_eq_some_iff.mp hh
    rw [(hg handle).1]
    exact hk.memory handle f hhandle hf
  · obtain ⟨handle, hhandle, rfl⟩ := Option.map_eq_some_iff.mp hh
    rw [(hg handle).2]
    exact hk.below handle f t hhandle hf ht

theorem Region.Does.kept {W : Prop} {s t : Region} {ev : RegionEvent} (hd : Does s ev t) (hs : s.Sound)
    (hz : s.Sized) (hk : s.Kept W) (hc : CrashEvent s ev) : t.Kept W := by
  cases hd with
  | opened _ hfile hread => exact kept_insertOpened hk hfile hread
  | unlinked hnone _ _ => exact Intact.kept (fun _ _ hf => by cases hf) hnone
  | made n hnone _ => exact (intact_makeFile s n).kept hnone
  | wrote endSector n hhandle hne hle hroom => exact kept_writeSectors endSector n hs hk hhandle hne hle hroom hc
  | saved index off data status _ hplaced =>
    apply kept_setPending index hk
    intro _ f hf
    rw [hplaced.payload status hf]
    exact ⟨fun p hp => hp, fun _ => rfl⟩
  | cleared index _ => exact kept_setPending index hk fun hx => by cases hx
  | committed hhandle => exact kept_writeTable hs hz hk hhandle
  | cleaned _ _ => exact kept_mapHandle hk fun _ => ⟨rfl, rfl⟩
  | counted n => exact kept_mapHandle hk fun _ => ⟨rfl, rfl⟩
  | closed _ _ => exact Intact.kept hk.disk rfl
  | lost => exact Intact.kept hk.disk rfl

/-! ## Runs -/

/-- Every entry of the file's table points at as many bytes as it says. -/
def ByteFile.Complete (f : ByteFile) : Prop :=
  ∀ t, f.table = some t → ∀ i, (t.get i).exists' = true → (f.payload (t.get i)).isSome

theorem intact_start (file : Option ByteFile) : (Region.start file).Intact (∀ f, file = some f → f.Complete) := by
  intro f t hf ht i hx
  have hf : file = some f := hf
  subst hf
  have hledger : (Region.start (some f)).ledger.committed i = f.payload (t.get i) := by
    show f.payloads i = _
    unfold ByteFile.payloads
    rw [ht, Option.bind_some, if_pos hx]
  rw [hledger]
  exact ⟨fun p hp => hp, fun hcomplete => hcomplete f rfl t ht i hx⟩

theorem kept_run {files : RegionPos → Option ByteFile} {ops : List RegionOp} {m : RegionManager}
    (hrun : Run (Guarded CrashSafe Step) (RegionManager.start files) ops m) (r : RegionPos) :
    (m r).Sound ∧ (m r).Sized ∧ (m r).Kept (∀ r f, files r = some f → f.Complete) := by
  have hstart : ∀ r, (RegionManager.start files r).Sized ∧
      (RegionManager.start files r).Kept (∀ r f, files r = some f → f.Complete) := by
    intro r
    refine ⟨fun _ h => (by cases h), Intact.kept (fun f t hf ht i hx => ?_) rfl⟩
    exact (intact_start (files r) f t hf ht i hx).imp_right fun h hall => h (hall r)
  apply run_invariant (I := fun s => s.Sized ∧ s.Kept (∀ r f, files r = some f → f.Complete)) hrun
    crashEvent_free CrashSafe.allowed (fun r => ⟨start_sound _, hstart r⟩)
  intro s t ev hs hk hg hd
  refine ⟨hd.sized hk.1 fun data h => ?_, hd.kept hs hk.1 hk.2 hg⟩
  subst h
  exact hg

/-- **Crash safety.** In a run whose saves all meet `CrashSafe`, at every moment, each existing
entry of the table on disk points at the payload it was created with; and the place of a
next chunk is clear of the table on disk exactly when its lowest gap is. -/
theorem disk_table_intact {files : RegionPos → Option ByteFile} {ops : List RegionOp} {m : RegionManager}
    (hrun : Run (Guarded CrashSafe Step) (RegionManager.start files) ops m) (r : RegionPos) (f : ByteFile)
    (t : RegionHeader) (hfile : (m r).file = some f) (ht : f.table = some t) :
    (∀ i, (t.get i).exists' = true →
      (∀ p, (m r).ledger.committed i = some p → f.payload (t.get i) = some p) ∧
        ((∀ r f, files r = some f → f.Complete) → ((m r).ledger.committed i).isSome)) ∧
    (∀ handle data, (m r).handle = some handle → data ≠ [] → data.length ≤ maxChunkSize →
      (handle.place data).toNat + sectorsOf data < 2 ^ 32 →
        (t.Free (handle.place data).toNat (sectorsOf data) ↔
          ∀ a, handle.header.FirstGap (sectorsOf data) a → t.Free a (sectorsOf data))) := by
  obtain ⟨hs, -, hk⟩ := kept_run hrun r
  refine ⟨fun i hx => ?_, fun handle data hhandle hne hle hroom => ?_⟩
  · obtain ⟨hrec, hsome⟩ := hk.disk f t hfile ht i hx
    exact ⟨hrec, fun hall => hsome hall⟩
  · exact place_clear_iff hs hk hhandle hfile ht hne hle hroom

/-! ## A reused sector -/

def tableB : RegionHeader := tableA.set (RegionHeader.slot firstChunk) ⟨4, 1, .full⟩

def flushedFile : ByteFile :=
  ((ByteFile.empty.write 0 newRegionBytes).write (3 * sectorSize) (padded [1])).write fileHeaderSize tableA.toBytes

def flushedRegion : Region :=
  ⟨some flushedFile, some ⟨tableA, 1, false, 4⟩, some tableA,
    (CommitStore.empty.put (RegionHeader.slot firstChunk) (some [1])).commit⟩

/-- The table and the first chunk's sector once the other two saves are done. -/
def reusedFile : ByteFile := (flushedFile.write (4 * sectorSize) (padded [2])).write (3 * sectorSize) (padded [3])

theorem tableA_reloaded : tableA.reloaded = tableA := by
  apply RegionHeader.ext_get
  intro i
  rw [RegionHeader.get_reloaded]
  unfold tableA
  rw [RegionHeader.get_set, RegionHeader.get_new]
  by_cases hi : RegionHeader.slot firstChunk = i
  · rw [if_pos hi]
    rfl
  · rw [if_neg hi]
    rfl

theorem saved_again :
    (saveChunkData smoothSave (RegionHeader.slot firstChunk) [2] .full flushedRegion).2 =
      ⟨some (flushedFile.write (4 * sectorSize) (padded [2])), some ⟨tableB, 1, true, 5⟩, some tableB,
        flushedRegion.ledger.put (RegionHeader.slot firstChunk) (some [2])⟩ := by
  have hplace : (⟨tableA, 1, false, 4⟩ : RegionHandle).place [2] = 4 := by decide +kernel
  rw [saveChunkData_done _ _ rfl rfl (by decide) (by rw [hplace]; decide), hplace]
  rfl

theorem saved_second (lastTable : Option RegionHeader) (ledger : CommitStore (Fin chunksPerRegion) (List UInt8)) :
    let s := (saveChunkData smoothSave (RegionHeader.slot secondChunk) [3] .full
      ⟨some (flushedFile.write (4 * sectorSize) (padded [2])), some ⟨tableB, 1, true, 5⟩, lastTable, ledger⟩).2
    s.file = some reusedFile ∧ s.ledger.committed = ledger.committed := by
  have hplace : (⟨tableB, 1, true, 5⟩ : RegionHandle).place [3] = 3 := by decide +kernel
  rw [saveChunkData_done _ _ rfl rfl (by decide) (by rw [hplace]; decide), hplace]
  exact ⟨rfl, rfl⟩

theorem flushedFile_table : flushedFile.table = some tableA := by
  unfold flushedFile
  rw [ByteFile.table_writeTable, tableA_reloaded]

theorem reusedFile_table : reusedFile.table = some tableA := by
  have hlen : fileHeaderSize + chunkTableSize ≤ flushedFile.len := by
    refine Nat.le_trans ?_ (ByteFile.len_write_le _ _ _)
    refine Nat.le_trans ?_ (ByteFile.len_write_le _ _ _)
    rw [ByteFile.len_newRegion]
  have hlen' : fileHeaderSize + chunkTableSize ≤ (flushedFile.write (4 * sectorSize) (padded [2])).len :=
    Nat.le_trans hlen (ByteFile.len_write_le _ _ _)
  unfold reusedFile
  rw [ByteFile.table_write hlen' (Nat.le_refl 3) (Nat.le_of_eq (length_padded [3])),
    ByteFile.table_write hlen (show 3 ≤ 4 by decide) (Nat.le_of_eq (length_padded [2]))]
  exact flushedFile_table

theorem reusedFile_payload : reusedFile.payload (tableA.get (RegionHeader.slot firstChunk)) = some [3] := by
  have hget : tableA.get (RegionHeader.slot firstChunk) = ⟨3, 1, .full⟩ := by
    unfold tableA
    rw [RegionHeader.get_set, if_pos rfl]
  have hread := @ByteFile.read_write_front (flushedFile.write (4 * sectorSize) (padded [2])) (3 * sectorSize) [3]
    (List.replicate ((sectorSize - [3].length % sectorSize) % sectorSize) 0) (by decide)
  rw [hget]
  exact hread

theorem flushed_run : ∃ m, m origin = flushedRegion ∧
    Run (Guarded CrashSafe Step) (RegionManager.start fun _ => none)
      [.acquireChunk firstChunk smoothOpening, .saveChunkData firstChunk ⟨[1], by decide⟩ .full smoothSave,
        .flushAll [(origin, smoothTable)]] m := by
  have hflush : at' origin (flushRegion smoothTable) savedManager =
      (.ok (), Function.update savedManager origin flushedRegion) := by
    unfold at'
    rw [savedManager_origin]
    rfl
  have h₃ : savedManager.exec (.flushAll [(origin, smoothTable)]) origin = flushedRegion := by
    show (Async.bind (at' origin (flushRegion smoothTable)) (fun _ => flushAll []) savedManager).2 origin = _
    unfold Async.bind
    rw [hflush]
    show Function.update savedManager origin flushedRegion origin = _
    rw [Function.update_self]
  have hsafe : acquiredManager.CrashSafe (.saveChunkData firstChunk ⟨[1], by decide⟩ .full smoothSave) := by
    refine ⟨by decide, fun handle f t hhandle _ _ a ha => ?_⟩
    rw [show acquiredManager (.fromChunk firstChunk) = freshRegion from acquiredManager_origin] at hhandle
    cases hhandle
    obtain ⟨⟨_, _, i, hx, _⟩, _⟩ := ha
    rw [RegionHeader.get_new] at hx
    cases hx
  have hnodup : Enumerates [(origin, smoothTable)] savedManager := by
    refine ⟨by simp, fun r => ?_⟩
    by_cases hr : r = origin
    · rw [hr, savedManager_origin]
      simp [savedRegion]
    · rw [savedManager_other hr]
      simp [hr, Region.start]
  exact ⟨_, h₃, .snoc (.snoc (.snoc .nil ⟨trivial, trivial, rfl⟩) ⟨hsafe, trivial, rfl⟩) ⟨trivial, hnodup, rfl⟩⟩

theorem flushed_payload_intact : flushedFile.payload (tableA.get (RegionHeader.slot firstChunk)) = some [1] := by
  obtain ⟨m, hm, hrun⟩ := flushed_run
  have hentry := (disk_table_intact hrun origin flushedFile tableA (by rw [hm]; rfl) flushedFile_table).1
    (RegionHeader.slot firstChunk) rfl
  exact hentry.1 [1] (by rw [hm]; rfl)

/-- The first chunk is saved again and then the second chunk is saved: it is put where the table
on disk still has the first. -/
theorem reused_sector :
    ¬ ∀ (ops : List RegionOp) (m : RegionManager), Run Step (RegionManager.start fun _ => none) ops m →
      ∀ r f t i p, (m r).file = some f → f.table = some t → (t.get i).exists' = true →
        (m r).ledger.committed i = some p → f.payload (t.get i) = some p := by
  intro hall
  obtain ⟨m₃, h₃, hrun₃⟩ := flushed_run
  let m₄ := m₃.exec (.saveChunkData firstChunk ⟨[2], by decide⟩ .full smoothSave)
  let m₅ := m₄.exec (.saveChunkData secondChunk ⟨[3], by decide⟩ .full smoothSave)
  have h₄ : m₄ origin = _ := (exec_saveChunkData m₃ firstChunk _ _ _).trans (by
    rw [show m₃ (.fromChunk firstChunk) = flushedRegion from h₃, saved_again])
  have h₅ : (m₅ origin).file = some reusedFile ∧ (m₅ origin).ledger.committed = flushedRegion.ledger.committed := by
    have hexec := exec_saveChunkData m₄ secondChunk ⟨[3], by decide⟩ .full smoothSave
    rw [show m₄ (.fromChunk secondChunk) = m₄ origin from rfl, h₄] at hexec
    rw [show m₅ origin = _ from hexec]
    exact saved_second _ _
  have hstep₄ : Step m₃ (.saveChunkData firstChunk ⟨[2], by decide⟩ .full smoothSave) m₄ := ⟨trivial, rfl⟩
  have hstep₅ : Step m₄ (.saveChunkData secondChunk ⟨[3], by decide⟩ .full smoothSave) m₅ := ⟨trivial, rfl⟩
  have hrun : Run Step (RegionManager.start fun _ => none) _ m₅ :=
    .snoc (.snoc (hrun₃.mono fun _ _ _ h => h.2) hstep₄) hstep₅
  have hbad := hall _ m₅ hrun origin reusedFile tableA (RegionHeader.slot firstChunk) [1] h₅.1 reusedFile_table
    rfl (by rw [h₅.2]; rfl)
  rw [reusedFile_payload] at hbad
  exact absurd hbad (by decide)

end Foton

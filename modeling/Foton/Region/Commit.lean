import Foton.Region.Crash

/-!
# Pending commits

A table that has changed in memory is committed by a later table write, which
needs the handle. A release of the last reference and a close take the handle
out of the map before they write; dropped in between, they leave no one to
write the table. Nothing else loses it.
-/

namespace Foton

open RegionManager Region

/-! ## The condition -/

/-- No release and no close is dropped with a table left to write. -/
def RegionManager.CommitSafe (m : RegionManager) : RegionOp → Prop
  | .releaseChunk pos w => SafeRelease (m (.fromChunk pos)) w
  | .closeAll order => SafeClose m order
  | _ => True

def CommitEvent (_ : Region) (ev : RegionEvent) : Prop := ev ≠ .lost

theorem commitEvent_free (s : Region) (ev : RegionEvent) (h : ev.isFree = true) : CommitEvent s ev := by
  intro hlost
  subst hlost
  cases h

theorem CommitSafe.allowed (m : RegionManager) (op : RegionOp) (h : m.CommitSafe op) : Allowed CommitEvent m op := by
  cases op with
  | saveChunkData pos compressed status script =>
    exact ⟨fun _ => True, fun _ => trivial, fun _ _ _ _ _ => trivial, fun _ _ _ => by simp [CommitEvent],
      fun _ _ => by simp [CommitEvent]⟩
  | releaseChunk pos table => exact Or.inl h
  | closeAll order => exact Or.inl h
  | _ => trivial

/-! ## The invariant -/

/-- The file has the table `t`, as far as the format can hold it. -/
structure TableOnDisk (f : ByteFile) (t : RegionHeader) : Prop where
  framed : f.Framed
  table : f.table = some t.reloaded
  tidy : t.Tidy

theorem TableOnDisk.eq {f : ByteFile} {t : RegionHeader} (h : TableOnDisk f t)
    (hs : ∀ i, (t.get i).exists' = true → (t.get i).sizeBytes.toNat < 2 ^ 24) : f.table = some t := by
  rw [h.table, h.tidy.reloaded_eq hs]

structure Region.Pending (s : Region) : Prop where
  open_last : ∀ handle, s.handle = some handle → s.lastTable = some handle.header
  open_clean : ∀ handle, s.handle = some handle → handle.headerDirty = false →
    ∀ f, s.file = some f → f.table = some handle.header.reloaded
  closed : s.handle = none → ∀ t, s.lastTable = some t → ∃ f, s.file = some f ∧ TableOnDisk f t

theorem Region.Pending.of_open {s : Region} {handle : RegionHandle} (h : s.handle = some handle)
    (hlast : s.lastTable = some handle.header)
    (hclean : handle.headerDirty = false → ∀ f, s.file = some f → f.table = some handle.header.reloaded) :
    s.Pending where
  open_last handle' hh := by rw [h] at hh; cases hh; exact hlast
  open_clean handle' hh := by rw [h] at hh; cases hh; exact hclean
  closed hnone := by rw [h] at hnone; cases hnone

theorem readRegion_ne_incompatible {f : ByteFile} (hf : f.Framed) : readRegion f ≠ .ok none := by
  obtain ⟨bytes, hread, hmagic, hversion⟩ := hf.header
  unfold readRegion
  rw [hread]
  dsimp only
  rw [if_neg (not_not.mpr hmagic), if_neg (not_not.mpr hversion)]
  intro h
  split at h
  · cases h
  · split at h
    · cases h
    · split at h
      · cases h
      · split at h
        · cases h
        · cases h

theorem Region.Pending.never_remade {s : Region} (hp : s.Pending) (hnone : s.handle = none)
    (hfile : ∀ f, s.file = some f → readRegion f = .ok none) : s.lastTable = none := by
  cases hlast : s.lastTable with
  | none => rfl
  | some t =>
    obtain ⟨f, hf, htable⟩ := hp.closed hnone t hlast
    exact absurd (hfile f hf) (readRegion_ne_incompatible htable.framed)

theorem pending_none {s : Region} (hnone : s.handle = none) (hlast : s.lastTable = none) : s.Pending where
  open_last handle h := by rw [hnone] at h; cases h
  open_clean handle h := by rw [hnone] at h; cases h
  closed _ t h := by rw [hlast] at h; cases h

theorem Region.Stored.table {s : Region} {header : RegionHeader} (h : s.Stored header) {f : ByteFile}
    (hf : s.file = some f) : f.table = some header.reloaded := by
  rw [ByteFile.table_of_read (h f hf), RegionHeader.fromBytes_toBytes]
  rfl

theorem Region.Does.pending {s t : Region} {ev : RegionEvent} (hd : Does s ev t) (hs : s.Sound) (hp : s.Pending)
    (hc : CommitEvent s ev) : t.Pending := by
  cases hd with
  | @opened f handle _ hfile hread =>
    obtain ⟨-, htable, -, -, hsame, -⟩ := readRegion_some hread
    apply Pending.of_open (s := s.insertOpened handle) rfl rfl
    intro _ g hg
    rw [show (s.insertOpened handle).file = s.file from rfl, hfile] at hg
    cases hg
    rw [htable, hsame]
  | unlinked hnone hfile hread =>
    apply pending_none (s := s.removeFile) hnone
    apply hp.never_remade hnone
    intro g hg
    rw [hfile] at hg
    cases hg
    exact hread
  | made n hnone hfile =>
    apply pending_none (s := s.makeFile n) hnone
    apply hp.never_remade hnone
    intro g hg
    rw [hfile] at hg
    cases hg
  | @wrote handle data endSector n hhandle hne hle hroom =>
    obtain ⟨f, hfile, hsound⟩ := hs handle hhandle
    obtain ⟨hfirst, -⟩ := hsound.place_free hne hle hroom
    apply Pending.of_open (s := s.writeSectors (handle.place data) endSector ((padded data).take n))
      (congrArg (Option.map _) hhandle) (hp.open_last handle hhandle)
    intro hclean g hg
    obtain ⟨f', hf', rfl⟩ := Option.map_eq_some_iff.mp hg
    rw [hfile] at hf'
    cases hf'
    rw [ByteFile.table_write hsound.framed.table_le hfirst (length_take_padded_le data n)]
    exact hp.open_clean handle hhandle hclean f hfile
  | saved index off data status hsome _ =>
    obtain ⟨handle, hhandle⟩ := Option.isSome_iff_exists.mp hsome
    apply Pending.of_open (congrArg (Option.map _) hhandle) (congrArg (Option.map _) hhandle)
    intro hclean
    cases hclean
  | cleared index hsome =>
    obtain ⟨handle, hhandle⟩ := Option.isSome_iff_exists.mp hsome
    apply Pending.of_open (congrArg (Option.map _) hhandle) (congrArg (Option.map _) hhandle)
    intro hclean
    cases hclean
  | @committed handle hhandle =>
    apply Pending.of_open (s := s.writeTable handle.header) hhandle (hp.open_last handle hhandle)
    intro _ g hg
    exact (writeTable_stored s handle.header).table hg
  | @cleaned handle hhandle hstored =>
    apply Pending.of_open (s := s.mapHandle fun handle => { handle with headerDirty := false })
      (congrArg (Option.map _) hhandle) (hp.open_last handle hhandle)
    intro _ g hg
    exact hstored.table hg
  | counted n =>
    cases hhandle : s.handle with
    | none =>
      rw [show s.mapHandle (fun handle => { handle with loadedChunkCount := n }) = s by
        unfold mapHandle
        rw [hhandle, Option.map_none, ← hhandle]]
      exact hp
    | some handle =>
      exact Pending.of_open (congrArg (Option.map _) hhandle) (hp.open_last handle hhandle)
        (hp.open_clean handle hhandle)
  | @closed handle hhandle hdone =>
    obtain ⟨f, hfile, hsound⟩ := hs handle hhandle
    have htable : f.table = some handle.header.reloaded := by
      rcases hdone with hclean | hstored
      · exact hp.open_clean handle hhandle hclean f hfile
      · exact hstored.table hfile
    refine ⟨fun _ h => (by cases h), fun _ h => (by cases h), fun _ t ht => ⟨f, hfile, ?_⟩⟩
    have hlast := hp.open_last handle hhandle
    rw [show s.remove.lastTable = s.lastTable from rfl, hlast] at ht
    cases ht
    exact ⟨hsound.framed, htable, hsound.tidy⟩
  | lost => exact absurd rfl hc

/-! ## Runs -/

/-- **No pending commit is lost.** In a run that drops no release and no close before its last
table write, a region without a handle has on disk the last table that was in memory. -/
theorem no_pending_commit_lost {files : RegionPos → Option ByteFile} {ops : List RegionOp} {m : RegionManager}
    (hrun : Run (Guarded CommitSafe Step) (RegionManager.start files) ops m) (r : RegionPos) {t : RegionHeader}
    (hnone : (m r).handle = none) (hlast : (m r).lastTable = some t) :
    ∃ f, (m r).file = some f ∧ f.table = some t.reloaded ∧
      ((∀ i, (t.get i).exists' = true → (t.get i).sizeBytes.toNat ≠ maxChunkSize) → f.table = some t) := by
  have hinv := run_invariant hrun commitEvent_free CommitSafe.allowed
    (fun r => ⟨start_sound (files r), pending_none rfl rfl⟩) (fun s t ev hs hp hg hd => hd.pending hs hp hg) r
  obtain ⟨f, hfile, htable⟩ := hinv.2.closed hnone t hlast
  refine ⟨f, hfile, htable.table, fun hsize => htable.eq fun i hx => ?_⟩
  exact Nat.lt_of_le_of_ne (htable.tidy i).2 (hsize i hx)

/-! ## A release that is dropped -/

def releasedRegion : Region :=
  ⟨some flushedFile, none, some tableA, (CommitStore.empty.put (RegionHeader.slot firstChunk) (some [1])).commit⟩

theorem released_written : (releaseChunk smoothTable savedRegion).2 = releasedRegion := rfl

theorem released_dropped : (releaseChunk ⟨.cancelled, false⟩ savedRegion).2 = savedRegion.remove := rfl

theorem exec_releaseChunk (m : RegionManager) (pos : ChunkPos) (w : TableWrite) :
    m.exec (.releaseChunk pos w) (.fromChunk pos) = (releaseChunk w (m (.fromChunk pos))).2 :=
  Function.update_self ..

theorem released_table_committed : flushedFile.table = some tableA := by
  let m := savedManager.exec (.releaseChunk firstChunk smoothTable)
  have hm : m origin = releasedRegion := by
    rw [← released_written, ← savedManager_origin]
    exact exec_releaseChunk savedManager firstChunk smoothTable
  have hsafe : savedManager.CommitSafe (.releaseChunk firstChunk smoothTable) := fun _ _ _ _ h => by cases h
  have hrun : Run (Guarded CommitSafe Step) (RegionManager.start fun _ => none)
      [.acquireChunk firstChunk smoothOpening, .saveChunkData firstChunk ⟨[1], by decide⟩ .full smoothSave,
        .releaseChunk firstChunk smoothTable] m :=
    .snoc (.snoc (.snoc .nil ⟨trivial, trivial, rfl⟩) ⟨trivial, trivial, rfl⟩) ⟨hsafe, trivial, rfl⟩
  have hsize : ∀ i, (tableA.get i).exists' = true → (tableA.get i).sizeBytes.toNat ≠ maxChunkSize := fun i _ => by
    unfold tableA
    rw [RegionHeader.get_set, RegionHeader.get_new]
    by_cases hi : RegionHeader.slot firstChunk = i
    · rw [if_pos hi]
      decide
    · rw [if_neg hi]
      decide
  obtain ⟨f, hfile, -, htable⟩ := no_pending_commit_lost hrun origin (t := tableA) (by rw [hm]; rfl) (by rw [hm]; rfl)
  rw [hm] at hfile
  have hf : flushedFile = f := Option.some.inj hfile
  rw [hf]
  exact htable hsize

/-- The only chunk of a region is saved, and its release is dropped at the table write. -/
theorem dropped_release_loses_table :
    ¬ ∀ (ops : List RegionOp) (m : RegionManager), Run Step (RegionManager.start fun _ => none) ops m →
      ∀ r t, (m r).handle = none → (m r).lastTable = some t → ∃ f, (m r).file = some f ∧ f.table = some t := by
  intro hall
  let m := savedManager.exec (.releaseChunk firstChunk ⟨.cancelled, false⟩)
  have hm : m origin = savedRegion.remove := by
    rw [← released_dropped, ← savedManager_origin]
    exact exec_releaseChunk savedManager firstChunk ⟨.cancelled, false⟩
  have hrun : Run Step (RegionManager.start fun _ => none)
      [.acquireChunk firstChunk smoothOpening, .saveChunkData firstChunk ⟨[1], by decide⟩ .full smoothSave,
        .releaseChunk firstChunk ⟨.cancelled, false⟩] m :=
    .snoc (.snoc (.snoc .nil ⟨trivial, rfl⟩) ⟨trivial, rfl⟩) ⟨trivial, rfl⟩
  obtain ⟨f, hfile, htable⟩ := hall _ m hrun origin tableA (by rw [hm]; rfl) (by rw [hm]; rfl)
  rw [hm] at hfile
  have hf : (ByteFile.empty.write 0 newRegionBytes).write (3 * sectorSize) (padded [1]) = f := Option.some.inj hfile
  have hempty : f.table = some RegionHeader.new := by
    rw [← hf]
    rw [ByteFile.table_write (Nat.le_of_eq ByteFile.len_newRegion.symm) (Nat.le_refl 3)
      (Nat.le_of_eq (length_padded [1])), ByteFile.table_newRegion]
  rw [hempty] at htable
  have hslot := congrArg (fun t => t.get (RegionHeader.slot firstChunk)) (Option.some.inj htable)
  unfold tableA at hslot
  simp only [RegionHeader.get_set, RegionHeader.get_new, if_pos] at hslot
  exact absurd hslot (by decide)

end Foton

import Foton.Region.File

/-!
# What one access can do

Whatever an operation does to a region, and wherever it stops, is a sequence of
events: one access to the file or to the regions map each. `Sound` holds after
every event, so it holds at every await point of every operation.
-/

namespace Foton

inductive RegionEvent where
  | opened
  | unlinked
  | made
  | wrote (data : List UInt8)
  | saved (data : List UInt8)
  | cleared
  | committed
  | cleaned
  | counted
  | closed
  | lost
  deriving DecidableEq

/-- The allocator's place for `data`. -/
def RegionHandle.place (handle : RegionHandle) (data : List UInt8) : UInt32 :=
  handle.header.findFreeSectors (UInt32.ofNat (sectorsOf data)) handle.fileSectors

namespace Region

/-- The table on disk is the one written from `header`. -/
def Stored (s : Region) (header : RegionHeader) : Prop :=
  ∀ f, s.file = some f → f.read fileHeaderSize chunkTableSize = some header.toBytes

/-- `data` lies complete in free sectors of the file, from sector `off` on. -/
structure Placed (s : Region) (off : UInt32) (data : List UInt8) : Prop where
  ne_nil : data ≠ []
  le : data.length ≤ maxChunkSize
  first : firstDataSector.toNat ≤ off.toNat
  room : off.toNat + sectorsOf data < 2 ^ 32
  free : ∀ handle, s.handle = some handle → handle.header.Free off.toNat (sectorsOf data)
  inside : ∀ handle, s.handle = some handle → off.toNat + sectorsOf data ≤ handle.fileSectors.toNat
  bytes : ∀ f, s.file = some f → f.read (off.toNat * sectorSize) data.length = some data
  length : ∀ f, s.file = some f → (off.toNat + sectorsOf data) * sectorSize ≤ f.len

inductive Does : Region → RegionEvent → Region → Prop
  | opened {s : Region} {f : ByteFile} {handle : RegionHandle} :
    s.handle = none → s.file = some f → readRegion f = .ok (some handle) → Does s .opened (s.insertOpened handle)
  | unlinked {s : Region} {f : ByteFile} :
    s.handle = none → s.file = some f → readRegion f = .ok none → Does s .unlinked s.removeFile
  | made {s : Region} (n : Nat) : s.handle = none → s.file = none → Does s .made (s.makeFile n)
  | wrote {s : Region} {handle : RegionHandle} {data : List UInt8} (endSector : UInt32) (n : Nat) :
    s.handle = some handle → data ≠ [] → data.length ≤ maxChunkSize →
    (handle.place data).toNat + sectorsOf data < 2 ^ 32 →
    Does s (.wrote data) (s.writeSectors (handle.place data) endSector ((padded data).take n))
  | saved {s : Region} (index : Fin chunksPerRegion) (off : UInt32) (data : List UInt8) (status : ChunkStatus) :
    s.handle.isSome → s.Placed off data →
    Does s (.saved data) (s.setPendingHeaderEntry index ⟨off, UInt32.ofNat data.length, status⟩ (some data))
  | cleared {s : Region} (index : Fin chunksPerRegion) :
    s.handle.isSome → Does s .cleared (s.setPendingHeaderEntry index .empty none)
  | committed {s : Region} {handle : RegionHandle} :
    s.handle = some handle → Does s .committed (s.writeTable handle.header)
  | cleaned {s : Region} {handle : RegionHandle} :
    s.handle = some handle → s.Stored handle.header →
    Does s .cleaned (s.mapHandle fun handle => { handle with headerDirty := false })
  | counted {s : Region} (n : Nat) :
    Does s .counted (s.mapHandle fun handle => { handle with loadedChunkCount := n })
  | closed {s : Region} {handle : RegionHandle} :
    s.handle = some handle → handle.headerDirty = false ∨ s.Stored handle.header → Does s .closed s.remove
  | lost {s : Region} : Does s .lost s.remove

/-- One event that `G` allows. -/
def Moved (G : Region → RegionEvent → Prop) (s t : Region) : Prop := ∃ ev, G s ev ∧ Does s ev t

/-! ## Soundness -/

/-- What holds of a handle and its file at every moment. -/
structure SoundHandle (handle : RegionHandle) (f : ByteFile) : Prop where
  framed : f.Framed
  valid : handle.header.Valid f.sectors
  ends : handle.header.EndsBy handle.fileSectors.toNat
  tidy : handle.header.Tidy

def Sound (s : Region) : Prop :=
  ∀ handle, s.handle = some handle → ∃ f, s.file = some f ∧ SoundHandle handle f

theorem start_sound (file : Option ByteFile) : (start file).Sound := fun _ h => by cases h

end Region

/-! ## Single accesses keep a file framed -/

namespace ByteFile.Framed

variable {f : ByteFile} (hf : f.Framed)
include hf

theorem write_sectors {a n : Nat} {bytes : List UInt8} (ha : firstDataSector.toNat ≤ a) (hroom : a + n < 2 ^ 32)
    (hb : bytes.length ≤ n * sectorSize) : (f.write (a * sectorSize) bytes).Framed := by
  obtain ⟨header, hread, hmagic⟩ := hf.header
  refine ⟨⟨header, read_write_sectors hread hb (Or.inl ?_), hmagic⟩,
    Nat.le_trans hf.table_le (len_write_le f _ _), ?_⟩
  · calc 0 + fileHeaderSize ≤ 3 * sectorSize := by decide
      _ ≤ a * sectorSize := Nat.mul_le_mul_right _ ha
  · by_cases h0 : bytes = []
    · rw [h0, write_nil]
      exact hf.len_le
    · rw [len_write h0]
      have hend : a * sectorSize + bytes.length ≤ maxRegionFileSize := by
        unfold maxRegionFileSize
        calc a * sectorSize + bytes.length ≤ (a + n) * sectorSize := by rw [Nat.add_mul]; omega
          _ ≤ (2 ^ 32 - 1) * sectorSize := Nat.mul_le_mul_right _ (by omega)
      exact Nat.max_le.mpr ⟨hf.len_le, hend⟩

theorem len_writeTable (h : RegionHeader) : (f.write fileHeaderSize h.toBytes).len = f.len := by
  rw [len_write (toBytes_ne_nil h), h.toBytes_length]
  exact Nat.max_eq_left hf.table_le

theorem writeTable (h : RegionHeader) : (f.write fileHeaderSize h.toBytes).Framed := by
  obtain ⟨header, hread, hmagic⟩ := hf.header
  refine ⟨⟨header, read_write_disjoint hread (Or.inl (Nat.le_of_eq (Nat.zero_add _))), hmagic⟩, ?_, ?_⟩
  · rw [hf.len_writeTable]
    exact hf.table_le
  · rw [hf.len_writeTable]
    exact hf.len_le

end ByteFile.Framed

/-! ## Single accesses keep a table valid -/

namespace RegionHeader

variable {h : RegionHeader} {sectors : Nat}

theorem Valid.mono {b : Nat} (hv : h.Valid sectors) (hab : sectors ≤ b) : h.Valid b :=
  { hv with inRange := fun i hx => (hv.inRange i hx).mono hab }

theorem EndsBy.mono {b : Nat} (he : h.EndsBy sectors) (hab : sectors ≤ b) : h.EndsBy b :=
  fun i hx => Nat.le_trans (he i hx) hab

theorem Valid.set {i : Fin chunksPerRegion} {e : ChunkEntry} {n : Nat} (hv : h.Valid sectors)
    (he : e.InRange sectors) (hn : e.stop = e.start + n) (hfree : h.Free e.start n) : (h.set i e).Valid sectors := by
  have hclear : ∀ j, (h.get j).exists' = true → e.stop ≤ (h.get j).start ∨ (h.get j).stop ≤ e.start :=
    fun j hx => by rw [hn]; exact hfree j hx
  refine ⟨fun j hx => ?_, fun j k hxj hxk hjk => ?_⟩
  · rw [get_set] at hx ⊢
    by_cases hij : i = j
    · rw [if_pos hij]
      exact he
    · rw [if_neg hij] at hx ⊢
      exact hv.inRange j hx
  · rw [get_set] at hxj hxk ⊢
    rw [get_set]
    by_cases hij : i = j
    · have hik : i ≠ k := fun hik => hjk (hij ▸ hik)
      rw [if_neg hik] at hxk
      rw [if_pos hij, if_neg hik]
      exact hclear k hxk
    · rw [if_neg hij] at hxj
      rw [if_neg hij]
      by_cases hik : i = k
      · rw [if_pos hik]
        exact (hclear j hxj).symm
      · rw [if_neg hik] at hxk ⊢
        exact hv.disjoint j k hxj hxk hjk

theorem EndsBy.set {i : Fin chunksPerRegion} {e : ChunkEntry} (hends : h.EndsBy sectors)
    (he : e.exists' = true → e.stop ≤ sectors) : (h.set i e).EndsBy sectors := by
  intro j hx
  rw [get_set] at hx ⊢
  by_cases hij : i = j
  · rw [if_pos hij] at hx ⊢
    exact he hx
  · rw [if_neg hij] at hx ⊢
    exact hends j hx

theorem Tidy.set {i : Fin chunksPerRegion} {e : ChunkEntry} (ht : h.Tidy)
    (he : (e.exists' = false → e.reloaded = e) ∧ e.sizeBytes.toNat ≤ maxChunkSize) : (h.set i e).Tidy := by
  intro j
  rw [get_set]
  by_cases hij : i = j
  · rw [if_pos hij]
    exact he
  · rw [if_neg hij]
    exact ht j

theorem Valid.set_empty {i : Fin chunksPerRegion} (hv : h.Valid sectors) : (h.set i .empty).Valid sectors := by
  have hget : ∀ j, ((h.set i .empty).get j).exists' = true → (h.set i .empty).get j = h.get j := fun j hx => by
    rw [get_set] at hx ⊢
    by_cases hij : i = j
    · rw [if_pos hij] at hx
      cases hx
    · rw [if_neg hij]
  refine ⟨fun j hx => ?_, fun j k hxj hxk hjk => ?_⟩
  · have hj := hget j hx
    rw [hj] at hx ⊢
    exact hv.inRange j hx
  · have hj := hget j hxj
    have hk := hget k hxk
    rw [hj] at hxj ⊢
    rw [hk] at hxk ⊢
    exact hv.disjoint j k hxj hxk hjk

end RegionHeader

/-! ## The entry of a save -/

section
variable {s : Region} {off : UInt32} {data : List UInt8} (hp : s.Placed off data) (status : ChunkStatus)
include hp

theorem Region.Placed.toNat_size : (UInt32.ofNat data.length).toNat = data.length := by
  have h := hp.le
  unfold maxChunkSize at h
  rw [UInt32.toNat_ofNat']
  exact Nat.mod_eq_of_lt (by omega)

theorem Region.Placed.stop :
    (⟨off, UInt32.ofNat data.length, status⟩ : ChunkEntry).stop = off.toNat + sectorsOf data := by
  unfold ChunkEntry.stop
  rw [ChunkEntry.toNat_sectorCount]
  simp only [hp.toNat_size]
  rfl

theorem Region.Placed.exists' : (⟨off, UInt32.ofNat data.length, status⟩ : ChunkEntry).exists' = true := by
  rw [ChunkEntry.exists'_iff]
  intro h0
  have h := hp.first
  have h0 : off = 0 := h0
  rw [h0] at h
  exact absurd h (by decide)

theorem Region.Placed.inRange {f : ByteFile} (hf : s.file = some f) :
    (⟨off, UInt32.ofNat data.length, status⟩ : ChunkEntry).InRange f.sectors := by
  have hlen := hp.length f hf
  refine ⟨hp.first, ?_, ?_, ?_⟩
  · rw [hp.toNat_size]
    exact List.length_pos_iff.mpr hp.ne_nil
  · rw [hp.toNat_size]
    exact hp.le
  · rw [hp.stop]
    unfold ByteFile.sectors sectorSize at *
    omega

theorem Region.Placed.payload {f : ByteFile} (hf : s.file = some f) :
    f.payload ⟨off, UInt32.ofNat data.length, status⟩ = some data := by
  unfold ByteFile.payload ByteFile.readChunkData
  simp only [hp.toNat_size]
  exact hp.bytes f hf

end

/-! ## Every event is sound -/

namespace Region

/-- The sectors the allocator picks are free, also after it has walked the whole table. -/
theorem SoundHandle.place_free {handle : RegionHandle} {f : ByteFile} (hs : SoundHandle handle f)
    {data : List UInt8} (hne : data ≠ []) (hle : data.length ≤ maxChunkSize)
    (hroom : (handle.place data).toNat + sectorsOf data < 2 ^ 32) :
    firstDataSector.toNat ≤ (handle.place data).toNat ∧
      handle.header.Free (handle.place data).toNat (sectorsOf data) := by
  have hn : UInt32.ofNat (sectorsOf data) ≠ 0 := fun h0 => by
    have hpos := sectorsOf_pos hne
    rw [← toNat_sectorsOf hle, h0] at hpos
    exact absurd hpos (by decide)
  have h := RegionHeader.findFreeSectors_free hn hs.ends (by rw [toNat_sectorsOf hle]; exact hroom)
  rw [toNat_sectorsOf hle] at h
  exact h

theorem Does.sound {s t : Region} {ev : RegionEvent} (hd : Does s ev t) (hs : s.Sound) : t.Sound := by
  cases hd with
  | opened hnone hfile hread =>
    intro handle' h
    cases h
    obtain ⟨hframed, -, hvalid, htidy, -, -, hsectors, -, -⟩ := readRegion_some hread
    exact ⟨_, hfile, hframed, hvalid, by rw [hsectors]; exact hvalid.endsBy, htidy⟩
  | unlinked hnone => exact fun handle h => by rw [show s.removeFile.handle = none from hnone] at h; cases h
  | made n hnone => exact fun handle h => by rw [show (s.makeFile n).handle = none from hnone] at h; cases h
  | @wrote handle data endSector n hhandle hne hle hroom =>
    intro handle' h
    obtain ⟨f, hfile, hsound⟩ := hs handle hhandle
    obtain ⟨hfirst, -⟩ := hsound.place_free hne hle hroom
    simp only [writeSectors, mapHandle, writeFile, hhandle, Option.map_some, Option.some.injEq] at h
    subst h
    refine ⟨f.write _ _, by simp only [writeSectors, mapHandle, writeFile, hfile, Option.map_some],
      hsound.framed.write_sectors hfirst hroom (length_take_padded_le data n), ?_, ?_, hsound.tidy⟩
    · exact hsound.valid.mono (ByteFile.sectors_mono (ByteFile.len_write_le _ _ _))
    · rw [toNat_max_uint32]
      exact hsound.ends.mono (Nat.le_max_left _ _)
  | saved index off data status _ hplaced =>
    intro handle' h
    obtain ⟨handle, hhandle, rfl⟩ := Option.map_eq_some_iff.mp h
    obtain ⟨f, hfile, hsound⟩ := hs handle hhandle
    refine ⟨f, hfile, hsound.framed, ?_, ?_, ?_⟩
    · exact hsound.valid.set (hplaced.inRange status hfile) (hplaced.stop status) (hplaced.free handle hhandle)
    · apply hsound.ends.set
      intro _
      rw [hplaced.stop status]
      exact hplaced.inside handle hhandle
    · apply hsound.tidy.set
      refine ⟨fun hx => ?_, (hplaced.inRange status hfile).size_le⟩
      rw [hplaced.exists' status] at hx
      cases hx
  | cleared index _ =>
    intro handle' h
    obtain ⟨handle, hhandle, rfl⟩ := Option.map_eq_some_iff.mp h
    obtain ⟨f, hfile, hsound⟩ := hs handle hhandle
    refine ⟨f, hfile, hsound.framed, hsound.valid.set_empty, ?_, ?_⟩
    · apply hsound.ends.set
      intro hx
      cases hx
    · apply hsound.tidy.set
      exact ⟨fun _ => rfl, by decide⟩
  | @committed handle hhandle =>
    intro handle' h
    obtain ⟨f, hfile, hsound⟩ := hs handle' h
    refine ⟨f.write fileHeaderSize handle.header.toBytes, by simp only [writeTable, writeFile, hfile, Option.map_some],
      hsound.framed.writeTable _, ?_, hsound.ends, hsound.tidy⟩
    unfold ByteFile.sectors
    rw [hsound.framed.len_writeTable]
    exact hsound.valid
  | cleaned _ _ =>
    intro handle' h
    obtain ⟨handle, hhandle, rfl⟩ := Option.map_eq_some_iff.mp h
    obtain ⟨f, hfile, hsound⟩ := hs handle hhandle
    exact ⟨f, hfile, hsound.framed, hsound.valid, hsound.ends, hsound.tidy⟩
  | counted n =>
    intro handle' h
    obtain ⟨handle, hhandle, rfl⟩ := Option.map_eq_some_iff.mp h
    obtain ⟨f, hfile, hsound⟩ := hs handle hhandle
    exact ⟨f, hfile, hsound.framed, hsound.valid, hsound.ends, hsound.tidy⟩
  | closed _ _ => exact fun handle h => by cases h
  | lost => exact fun handle h => by cases h

theorem Moved.sound {G : Region → RegionEvent → Prop} {s t : Region} (hs : s.Sound) (h : Moved G s t) : t.Sound := by
  obtain ⟨ev, -, hd⟩ := h
  exact hd.sound hs

/-! ## Sizes that fit the table -/

/-- Every size of the table in memory fits the 24 bits it has on disk. -/
def Sized (s : Region) : Prop :=
  ∀ handle, s.handle = some handle → ∀ i, (handle.header.get i).sizeBytes.toNat < 2 ^ 24

theorem Sized.mapHandle {s : Region} {g : RegionHandle → RegionHandle} (hz : s.Sized)
    (hg : ∀ handle i, ((g handle).header.get i).sizeBytes.toNat < 2 ^ 24 ∨
      (g handle).header.get i = handle.header.get i) : (s.mapHandle g).Sized := by
  intro handle' h i
  obtain ⟨handle, hhandle, rfl⟩ := Option.map_eq_some_iff.mp h
  rcases hg handle i with hsize | hsame
  · exact hsize
  · rw [hsame]
    exact hz handle hhandle i

theorem Sized.setPending {s : Region} (index : Fin chunksPerRegion) {entry : ChunkEntry}
    (payload : Option (List UInt8)) (hz : s.Sized) (he : entry.sizeBytes.toNat < 2 ^ 24) :
    (s.setPendingHeaderEntry index entry payload).Sized := by
  refine hz.mapHandle (g := fun handle =>
    { handle with header := handle.header.set index entry, headerDirty := true }) fun handle i => ?_
  rw [RegionHeader.get_set]
  by_cases hi : index = i
  · rw [if_pos hi]
    exact Or.inl he
  · rw [if_neg hi]
    exact Or.inr rfl

theorem Does.sized {s t : Region} {ev : RegionEvent} (hd : Does s ev t) (hz : s.Sized)
    (hc : ∀ data, ev = .saved data → data.length ≠ maxChunkSize) : t.Sized := by
  cases hd with
  | opened _ _ hread =>
    intro handle' h
    cases h
    obtain ⟨-, -, -, -, -, hsizes, -⟩ := readRegion_some hread
    exact hsizes
  | unlinked _ _ _ => exact hz
  | made n _ _ => exact hz
  | wrote endSector n _ _ _ _ => exact hz.mapHandle fun _ _ => Or.inr rfl
  | saved index off data status _ hplaced =>
    apply hz.setPending
    rw [hplaced.toNat_size]
    exact Nat.lt_of_le_of_ne hplaced.le (hc data rfl)
  | cleared index _ => exact hz.setPending index none (by decide)
  | committed _ => exact hz
  | cleaned _ _ => exact hz.mapHandle fun _ _ => Or.inr rfl
  | counted n => exact hz.mapHandle fun _ _ => Or.inr rfl
  | closed _ _ => exact fun _ h => by cases h
  | lost => exact fun _ h => by cases h

end Region

end Foton

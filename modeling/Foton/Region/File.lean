import Foton.Region.Manager

/-!
# Region files, read and written

Which writes leave which reads alone, and which files `open_region` accepts.
-/

namespace Foton

/-! ## Sectors -/

theorem sectorsOf_pos {data : List UInt8} (h : data ≠ []) : 0 < sectorsOf data := by
  have := List.length_pos_iff.mpr h
  unfold sectorsOf sectorSize
  omega

theorem sectorsOf_lt {data : List UInt8} (h : data.length ≤ maxChunkSize) : sectorsOf data < 2 ^ 32 := by
  unfold maxChunkSize at h
  unfold sectorsOf sectorSize
  omega

theorem toNat_sectorsOf {data : List UInt8} (h : data.length ≤ maxChunkSize) :
    (UInt32.ofNat (sectorsOf data)).toNat = sectorsOf data := by
  rw [UInt32.toNat_ofNat']
  exact Nat.mod_eq_of_lt (sectorsOf_lt h)

theorem length_padded (data : List UInt8) : (padded data).length = sectorsOf data * sectorSize := by
  unfold padded sectorsOf sectorSize
  rw [List.length_append, List.length_replicate]
  omega

theorem length_take_padded_le (data : List UInt8) (n : Nat) :
    ((padded data).take n).length ≤ sectorsOf data * sectorSize := by
  rw [← length_padded, List.length_take]
  exact Nat.min_le_right _ _

namespace ByteFile

theorem sectors_mono {f g : ByteFile} (h : f.len ≤ g.len) : f.sectors ≤ g.sectors := by
  unfold sectors sectorSize
  omega

/-- A write of whole or partial sectors from the first data sector on leaves what lies in other sectors. -/
theorem read_write_sectors {f : ByteFile} {a n off k : Nat} {bytes data : List UInt8}
    (hr : f.read off k = some data) (hb : bytes.length ≤ n * sectorSize)
    (hd : off + k ≤ a * sectorSize ∨ (a + n) * sectorSize ≤ off) :
    (f.write (a * sectorSize) bytes).read off k = some data := by
  apply read_write_disjoint hr
  rcases hd with hd | hd
  · exact Or.inl hd
  · right
    rw [Nat.add_mul] at hd
    omega

theorem payload_eq (f : ByteFile) (e : ChunkEntry) :
    f.payload e = f.read (e.start * sectorSize) e.sizeBytes.toNat := rfl

theorem payload_end_le (e : ChunkEntry) : e.start * sectorSize + e.sizeBytes.toNat ≤ e.stop * sectorSize := by
  unfold ChunkEntry.stop ChunkEntry.start
  rw [ChunkEntry.toNat_sectorCount]
  unfold sectorSize
  omega

theorem payload_write_clear {f : ByteFile} {e : ChunkEntry} {a n : Nat} {bytes p : List UInt8}
    (hp : f.payload e = some p) (hb : bytes.length ≤ n * sectorSize) (hc : e.Clear a n) :
    (f.write (a * sectorSize) bytes).payload e = some p := by
  rw [payload_eq] at hp ⊢
  have hend := payload_end_le e
  apply read_write_sectors hp hb
  rcases hc with hc | hc
  · exact Or.inr (Nat.mul_le_mul_right _ hc)
  · exact Or.inl (Nat.le_trans hend (Nat.mul_le_mul_right _ hc))

theorem table_of_read {f : ByteFile} {bytes : List UInt8} (h : f.read fileHeaderSize chunkTableSize = some bytes) :
    f.table = (RegionHeader.fromBytes bytes).toOption := by unfold table; rw [h]

theorem read_table_write {f : ByteFile} {a n : Nat} {bytes : List UInt8} (hlen : fileHeaderSize + chunkTableSize ≤ f.len)
    (ha : firstDataSector.toNat ≤ a) (hb : bytes.length ≤ n * sectorSize) :
    (f.write (a * sectorSize) bytes).read fileHeaderSize chunkTableSize = f.read fileHeaderSize chunkTableSize := by
  obtain ⟨data, hdata⟩ := Option.isSome_iff_exists.mp (read_isSome.mpr hlen)
  rw [hdata]
  apply read_write_sectors hdata hb
  left
  calc fileHeaderSize + chunkTableSize ≤ 3 * sectorSize := by decide
    _ ≤ a * sectorSize := Nat.mul_le_mul_right _ ha

theorem table_write {f : ByteFile} {a n : Nat} {bytes : List UInt8} (hlen : fileHeaderSize + chunkTableSize ≤ f.len)
    (ha : firstDataSector.toNat ≤ a) (hb : bytes.length ≤ n * sectorSize) :
    (f.write (a * sectorSize) bytes).table = f.table := by
  unfold table
  rw [read_table_write hlen ha hb]

theorem toBytes_ne_nil (h : RegionHeader) : h.toBytes ≠ [] := by
  intro h0
  have := h.toBytes_length
  rw [h0] at this
  exact absurd this (by decide)

/-- The table that was written is the table that is read, as far as its fields hold it. -/
theorem read_writeTable (f : ByteFile) (h : RegionHeader) :
    (f.write fileHeaderSize h.toBytes).read fileHeaderSize chunkTableSize = some h.toBytes := by
  have := read_write_same f fileHeaderSize (toBytes_ne_nil h)
  rwa [h.toBytes_length] at this

theorem table_writeTable (f : ByteFile) (h : RegionHeader) :
    (f.write fileHeaderSize h.toBytes).table = some h.reloaded := by
  rw [table_of_read (read_writeTable f h), h.fromBytes_toBytes]
  rfl

theorem payload_writeTable {f : ByteFile} {e : ChunkEntry} {p : List UInt8} (h : RegionHeader)
    (hp : f.payload e = some p) (he : firstDataSector.toNat ≤ e.start) :
    (f.write fileHeaderSize h.toBytes).payload e = some p := by
  rw [payload_eq] at hp ⊢
  apply read_write_disjoint hp
  right
  rw [h.toBytes_length]
  calc fileHeaderSize + chunkTableSize ≤ 3 * sectorSize := by decide
    _ ≤ e.start * sectorSize := Nat.mul_le_mul_right _ he

end ByteFile

/-! ## Files a region can be read from -/

/-- Magic, version, room for the table, and a length the format can address. -/
structure ByteFile.Framed (f : ByteFile) : Prop where
  header : ∃ bytes, f.read 0 fileHeaderSize = some bytes ∧ bytes.take 4 = regionMagic ∧
    (bytes.drop 4).take 2 = (fileHeaderBytes.drop 4).take 2
  table_le : fileHeaderSize + chunkTableSize ≤ f.len
  len_le : f.len ≤ maxRegionFileSize

theorem ByteFile.toNat_sectors {f : ByteFile} (h : f.len ≤ maxRegionFileSize) :
    (UInt32.ofNat f.sectors).toNat = f.sectors := by
  rw [UInt32.toNat_ofNat']
  apply Nat.mod_eq_of_lt
  unfold maxRegionFileSize sectorSize at h
  unfold sectors sectorSize
  omega

/-- Slots without a chunk come back as they are, and every size is a size. -/
def RegionHeader.Tidy (h : RegionHeader) : Prop :=
  ∀ i, ((h.get i).exists' = false → (h.get i).reloaded = h.get i) ∧ (h.get i).sizeBytes.toNat ≤ maxChunkSize

theorem RegionHeader.Tidy.reloaded_eq {h : RegionHeader} (ht : h.Tidy)
    (hs : ∀ i, (h.get i).exists' = true → (h.get i).sizeBytes.toNat < 2 ^ 24) : h.reloaded = h := by
  apply ext_get
  intro i
  rw [get_reloaded]
  by_cases hx : (h.get i).exists' = true
  · exact ChunkEntry.reloaded_of_lt hx (hs i hx)
  · exact (ht i).1 (Bool.eq_false_iff.mpr hx)

theorem ChunkEntry.fromBytes_reloaded {bytes : List UInt8} {e : ChunkEntry} (h : fromBytes bytes = some e) :
    e.sizeBytes.toNat < 2 ^ 24 ∧ e.reloaded = e := by
  have hsmall : ∀ b0 b1 b2 : UInt8, (ofLeBytes b0 b1 b2 0).toNat < 2 ^ 24 := fun b0 b1 b2 => by
    have h0 := b0.toNat_lt
    have h1 := b1.toNat_lt
    have h2 := b2.toNat_lt
    simp only [ofLeBytes, UInt32.toNat_ofNat', UInt8.toNat_zero]
    omega
  unfold fromBytes at h
  split at h
  · rename_i b0 b1 b2 b3 b4 b5 b6 b7
    have hs := hsmall b4 b5 b6
    simp only at h
    split at h
    · rename_i h0
      cases h
      refine ⟨hs, ?_⟩
      simp only [reloaded, exists', h0, Nat.mod_eq_of_lt hs, UInt32.ofNat_toNat]
      rfl
    · rename_i h0
      obtain ⟨status, -, rfl⟩ := Option.map_eq_some_iff.mp h
      exact ⟨hs, reloaded_of_lt (by simp [exists', h0]) hs⟩
  · cases h

theorem RegionHeader.fromBytes_reloaded {bytes : List UInt8} {h : RegionHeader} (hb : fromBytes bytes = .ok h) :
    (∀ i, (h.get i).sizeBytes.toNat < 2 ^ 24) ∧ h.reloaded = h := by
  have he := fun i => ChunkEntry.fromBytes_reloaded (fromBytes_ok hb i)
  refine ⟨fun i => (he i).1, ext_get fun i => ?_⟩
  rw [get_reloaded]
  exact (he i).2

theorem RegionHeader.fromBytes_tidy {bytes : List UInt8} {h : RegionHeader} (hb : fromBytes bytes = .ok h) :
    h.Tidy := by
  intro i
  obtain ⟨hs, hr⟩ := ChunkEntry.fromBytes_reloaded (fromBytes_ok hb i)
  exact ⟨fun _ => hr, by have : maxChunkSize = 2 ^ 24 := rfl; omega⟩

/-- What `open_region` checks of an existing file. -/
theorem readRegion_some {f : ByteFile} {handle : RegionHandle} (h : readRegion f = .ok (some handle)) :
    f.Framed ∧ f.table = some handle.header ∧ handle.header.Valid f.sectors ∧ handle.header.Tidy ∧
      handle.header.reloaded = handle.header ∧ (∀ i, (handle.header.get i).sizeBytes.toNat < 2 ^ 24) ∧
      handle.fileSectors.toNat = f.sectors ∧ handle.headerDirty = false ∧ handle.loadedChunkCount = 0 := by
  unfold readRegion at h
  split at h
  · cases h
  rename_i headerBytes hheader
  by_cases hmagic : headerBytes.take 4 ≠ regionMagic
  · rw [if_pos hmagic] at h; cases h
  rw [if_neg hmagic] at h
  by_cases hversion : (headerBytes.drop 4).take 2 ≠ (fileHeaderBytes.drop 4).take 2
  · rw [if_pos hversion] at h; cases h
  rw [if_neg hversion] at h
  by_cases hlen : f.len > maxRegionFileSize
  · rw [if_pos hlen] at h; cases h
  rw [if_neg hlen] at h
  split at h
  · cases h
  rename_i tableBytes htable
  split at h
  · cases h
  rename_i header hdecode
  split at h
  · cases h
  rename_i hvalid
  cases h
  have hle : f.len ≤ maxRegionFileSize := Nat.le_of_not_lt hlen
  have hsectors := ByteFile.toNat_sectors hle
  rw [validateRegionEntries_ok, hsectors] at hvalid
  refine ⟨⟨⟨headerBytes, hheader, not_not.mp hmagic, not_not.mp hversion⟩, ?_, hle⟩, ?_, hvalid,
    RegionHeader.fromBytes_tidy hdecode, (RegionHeader.fromBytes_reloaded hdecode).2,
    (RegionHeader.fromBytes_reloaded hdecode).1, hsectors, rfl, rfl⟩
  · exact ByteFile.read_isSome.mp (by rw [htable]; rfl)
  · rw [ByteFile.table_of_read htable, hdecode]
    rfl

theorem readRegion_framed {f : ByteFile} {h : RegionHeader} (hf : f.Framed) (ht : f.table = some h)
    (hv : h.Valid f.sectors) : readRegion f = .ok (some ⟨h, 0, false, UInt32.ofNat f.sectors⟩) := by
  obtain ⟨headerBytes, hheader, hmagic, hversion⟩ := hf.header
  obtain ⟨tableBytes, htable⟩ := Option.isSome_iff_exists.mp (ByteFile.read_isSome.mpr hf.table_le)
  have hle := hf.len_le
  have hsectors := ByteFile.toNat_sectors hle
  have hdecode : RegionHeader.fromBytes tableBytes = .ok h := by
    rw [ByteFile.table_of_read htable] at ht
    cases hd : RegionHeader.fromBytes tableBytes with
    | error i => rw [hd] at ht; cases ht
    | ok h' => rw [hd] at ht; cases ht; rfl
  have hvalid : validateRegionEntries h (UInt32.ofNat f.sectors) = .ok () := by
    rw [validateRegionEntries_ok, hsectors]
    exact hv
  unfold readRegion
  simp only [hheader, htable, hdecode, hvalid]
  rw [if_neg (not_not.mpr hmagic), if_neg (not_not.mpr hversion), if_neg (Nat.not_lt.mpr hle)]

/-! ## A new file -/

theorem newRegionBytes_length : newRegionBytes.length = fileHeaderSize + chunkTableSize := by
  unfold newRegionBytes
  rw [List.length_append, RegionHeader.toBytes_length]
  rfl

theorem RegionHeader.new_reloaded : RegionHeader.new.reloaded = RegionHeader.new := by
  apply ext_get
  intro i
  rw [get_reloaded, get_new]
  rfl

theorem newRegionBytes_ne_nil : newRegionBytes ≠ [] := List.append_ne_nil_of_left_ne_nil (by decide) _

namespace ByteFile

theorem read_newRegion : (empty.write 0 newRegionBytes).read fileHeaderSize chunkTableSize =
    some RegionHeader.new.toBytes := by
  have := @read_write_back empty 0 fileHeaderBytes _ (toBytes_ne_nil RegionHeader.new)
  rwa [RegionHeader.toBytes_length] at this

theorem table_newRegion : (empty.write 0 newRegionBytes).table = some RegionHeader.new := by
  rw [table_of_read read_newRegion, RegionHeader.fromBytes_toBytes, RegionHeader.new_reloaded]
  rfl

theorem len_newRegion : (empty.write 0 newRegionBytes).len = fileHeaderSize + chunkTableSize := by
  rw [len_write newRegionBytes_ne_nil, newRegionBytes_length]
  rfl

theorem newRegion_framed : (empty.write 0 newRegionBytes).Framed where
  header := ⟨fileHeaderBytes, @read_write_front empty 0 fileHeaderBytes _ (by decide), by decide, rfl⟩
  table_le := by rw [len_newRegion]
  len_le := by rw [len_newRegion]; decide

/-- A file that `create_region` has begun or finished has no table or an empty one. -/
theorem table_makeFile {n : Nat} {t : RegionHeader}
    (h : (empty.write 0 (newRegionBytes.take n)).table = some t) : t = RegionHeader.new := by
  by_cases hn : newRegionBytes.length ≤ n
  · rw [List.take_of_length_le hn, table_newRegion] at h
    exact (Option.some.inj h).symm
  · have hlen : (empty.write 0 (newRegionBytes.take n)).len < fileHeaderSize + chunkTableSize := by
      by_cases h0 : newRegionBytes.take n = []
      · rw [h0, write_nil]
        decide
      · rw [len_write h0, List.length_take, ← newRegionBytes_length]
        simp only [empty]
        omega
    have hnone : (empty.write 0 (newRegionBytes.take n)).read fileHeaderSize chunkTableSize = none := by
      unfold read
      rw [if_neg (Nat.not_le.mpr hlen)]
    unfold table at h
    rw [hnone] at h
    cases h

end ByteFile

theorem readRegion_new : readRegion (ByteFile.empty.write 0 newRegionBytes) =
    .ok (some ⟨RegionHeader.new, 0, false, firstDataSector⟩) := by
  have hv : RegionHeader.new.Valid (ByteFile.empty.write 0 newRegionBytes).sectors :=
    { inRange := fun i hx => by rw [RegionHeader.get_new] at hx; cases hx
      disjoint := fun i _ hx => by rw [RegionHeader.get_new] at hx; cases hx }
  rw [readRegion_framed ByteFile.newRegion_framed ByteFile.table_newRegion hv]
  unfold ByteFile.sectors
  rw [ByteFile.len_newRegion]
  rfl

end Foton

import Foton.Region.Format
import Mathlib.Data.List.Nodup
import Mathlib.Data.List.Pairwise

/-!
# Sector allocation and table validation

`find_free_sectors` is first fit over the ranges of the in-memory table. What it
returns is free in that table, is the lowest such place when a gap between two
entries takes it, and lies at or past the end of the file otherwise.
`validate_region_entries` accepts exactly the tables whose entries are in range
and pairwise disjoint.
-/

namespace Foton

/-- Sectors `[a, a + n)` and the entry's sectors have none in common. -/
def ChunkEntry.Clear (e : ChunkEntry) (a n : Nat) : Prop := a + n ≤ e.start ∨ e.stop ≤ a

instance (e : ChunkEntry) (a n : Nat) : Decidable (e.Clear a n) := inferInstanceAs (Decidable (_ ∨ _))

namespace RegionHeader

/-- Every entry that exists ends inside a file of `sectors` sectors. -/
def EndsBy (h : RegionHeader) (sectors : Nat) : Prop :=
  ∀ i, (h.get i).exists' = true → (h.get i).stop ≤ sectors

/-- Sectors `[a, a + n)` are free in the table. -/
def Free (h : RegionHeader) (a n : Nat) : Prop :=
  ∀ i, (h.get i).exists' = true → (h.get i).Clear a n

/-- A free place for `n` sectors with an entry above it. -/
def Gap (h : RegionHeader) (n a : Nat) : Prop :=
  firstDataSector.toNat ≤ a ∧ h.Free a n ∧ ∃ i, (h.get i).exists' = true ∧ a + n ≤ (h.get i).start

/-- The lowest gap of `n` sectors. -/
def FirstGap (h : RegionHeader) (n a : Nat) : Prop := h.Gap n a ∧ ∀ b, h.Gap n b → a ≤ b

end RegionHeader

/-! ## The scan -/

theorem toNat_max_uint32 (a b : UInt32) : (max a b).toNat = max a.toNat b.toNat := by
  show (if a ≤ b then b else a).toNat = _
  split
  · rename_i h; exact (Nat.max_eq_right (UInt32.le_iff_toNat_le.mp h)).symm
  · rename_i h
    exact (Nat.max_eq_left (Nat.le_of_lt (Nat.lt_of_not_le fun h' => h (UInt32.le_iff_toNat_le.mpr h')))).symm

theorem pairwise_mergeSort_key {α : Type} (key : α → UInt32) (l : List α) :
    (l.mergeSort fun a b => decide (key a ≤ key b)).Pairwise fun a b => (key a).toNat ≤ (key b).toNat := by
  have hp : (l.mergeSort fun a b => decide (key a ≤ key b)).Pairwise fun a b => decide (key a ≤ key b) = true := by
    apply List.pairwise_mergeSort
    · intro a b c hab hbc
      simp only [decide_eq_true_eq, UInt32.le_iff_toNat_le] at *
      omega
    · intro a b
      simp only [Bool.or_eq_true, decide_eq_true_eq, UInt32.le_iff_toNat_le]
      omega
  exact hp.imp fun hab => UInt32.le_iff_toNat_le.mp (of_decide_eq_true hab)

namespace RegionHeader

section
variable {needed fileSectors : UInt32}

theorem add_le_start {current start : UInt32} (hgap : start ≥ current + needed)
    (hlt : current.toNat + needed.toNat < 2 ^ 32) : current.toNat + needed.toNat ≤ start.toNat := by
  have hsum : (current + needed).toNat = current.toNat + needed.toNat := by
    rw [UInt32.toNat_add]; exact Nat.mod_eq_of_lt hlt
  rw [← hsum]
  exact UInt32.le_iff_toNat_le.mp hgap

/-- The result of a scan that ends below the sector limit is clear of the ranges still to come. -/
theorem scanGaps_clear : ∀ (l : List (UInt32 × UInt32)) (current : UInt32),
    l.Pairwise (fun a b => a.1.toNat ≤ b.1.toNat) →
    (scanGaps needed fileSectors current l).toNat + needed.toNat < 2 ^ 32 →
    current.toNat ≤ (scanGaps needed fileSectors current l).toNat ∧
      ∀ r ∈ l, (scanGaps needed fileSectors current l).toNat + needed.toNat ≤ r.1.toNat ∨
        r.2.toNat ≤ (scanGaps needed fileSectors current l).toNat
  | [], current, _, _ => by
    refine ⟨?_, by simp⟩
    simp only [scanGaps, toNat_max_uint32]
    exact Nat.le_max_left _ _
  | (start, stop) :: rest, current, hs, hlt => by
    rw [List.pairwise_cons] at hs
    unfold scanGaps at hlt ⊢
    split
    · rename_i hgap
      rw [if_pos hgap] at hlt
      have hstart := add_le_start hgap hlt
      refine ⟨Nat.le_refl _, fun r hr => Or.inl ?_⟩
      rcases List.mem_cons.mp hr with rfl | hr
      · exact hstart
      · exact Nat.le_trans hstart (hs.1 r hr)
    · rename_i hgap
      rw [if_neg hgap] at hlt
      obtain ⟨hle, hall⟩ := scanGaps_clear rest (max current stop) hs.2 hlt
      rw [toNat_max_uint32] at hle
      refine ⟨by omega, fun r hr => ?_⟩
      rcases List.mem_cons.mp hr with rfl | hr
      · exact Or.inr (by simp only; omega)
      · exact hall r hr

theorem scanGaps_cases : ∀ (l : List (UInt32 × UInt32)) (current : UInt32),
    (scanGaps needed fileSectors current l).toNat + needed.toNat < 2 ^ 32 →
    fileSectors.toNat ≤ (scanGaps needed fileSectors current l).toNat ∨
      ∃ r ∈ l, (scanGaps needed fileSectors current l).toNat + needed.toNat ≤ r.1.toNat
  | [], current, _ => by
    left; simp only [scanGaps, toNat_max_uint32]; exact Nat.le_max_right _ _
  | (start, stop) :: rest, current, hlt => by
    unfold scanGaps at hlt ⊢
    split
    · rename_i hgap
      rw [if_pos hgap] at hlt
      exact Or.inr ⟨_, List.mem_cons_self .., add_le_start hgap hlt⟩
    · rename_i hgap
      rw [if_neg hgap] at hlt
      rcases scanGaps_cases rest (max current stop) hlt with h | ⟨r, hr, h⟩
      · exact Or.inl h
      · exact Or.inr ⟨r, List.mem_cons_of_mem _ hr, h⟩

/-- The scan passes over no gap: a range that ends the search early would have to start
below the cursor, and the cursor is never past a place that would do. -/
theorem scanGaps_least : ∀ (l : List (UInt32 × UInt32)) (current : UInt32) (a : Nat),
    (scanGaps needed fileSectors current l).toNat + needed.toNat < 2 ^ 32 →
    current.toNat ≤ a → (∀ r ∈ l, a + needed.toNat ≤ r.1.toNat ∨ r.2.toNat ≤ a) →
    (∃ r ∈ l, a + needed.toNat ≤ r.1.toNat) → (scanGaps needed fileSectors current l).toNat ≤ a
  | [], _, _, _, _, _, ⟨_, hr, _⟩ => by cases hr
  | (start, stop) :: rest, current, a, hlt, hca, hfree, ⟨r, hr, hra⟩ => by
    unfold scanGaps at hlt ⊢
    split
    · exact hca
    · rename_i hgap
      rw [if_neg hgap] at hlt
      have hr32 := r.1.toNat_lt
      have hlow : start.toNat < a + needed.toNat := by
        refine Nat.lt_of_not_le fun hge => hgap (UInt32.le_iff_toNat_le.mpr ?_)
        rw [UInt32.toNat_add, Nat.mod_eq_of_lt (by omega)]
        omega
      have hstop : stop.toNat ≤ a := by
        rcases hfree _ (List.mem_cons_self ..) with h | h
        · simp only at h; omega
        · exact h
      have hmem : r ∈ rest := by
        rcases List.mem_cons.mp hr with rfl | hr
        · simp only at hra; omega
        · exact hr
      exact scanGaps_least rest (max current stop) a hlt (by rw [toNat_max_uint32]; omega)
        (fun r hr => hfree r (List.mem_cons_of_mem _ hr)) ⟨r, hmem, hra⟩

end

/-! ## First fit -/

theorem mem_usedRanges {h : RegionHeader} {r : UInt32 × UInt32} :
    r ∈ h.usedRanges ↔ ∃ i, (h.get i).exists' = true ∧
      ((h.get i).sectorOffset, (h.get i).sectorOffset + (h.get i).sectorCount) = r := by
  simp only [usedRanges, List.mem_map, List.mem_filter, mem_list]
  constructor
  · rintro ⟨e, ⟨⟨i, rfl⟩, hx⟩, rfl⟩; exact ⟨i, hx, rfl⟩
  · rintro ⟨i, hx, rfl⟩; exact ⟨_, ⟨⟨i, rfl⟩, hx⟩, rfl⟩

/-- The ranges the scan reads, in order of their start. -/
def sortedRanges (h : RegionHeader) : List (UInt32 × UInt32) := h.usedRanges.mergeSort fun a b => a.1 ≤ b.1

theorem sortedRanges_pairwise (h : RegionHeader) :
    h.sortedRanges.Pairwise fun a b => a.1.toNat ≤ b.1.toNat :=
  pairwise_mergeSort_key Prod.fst h.usedRanges

theorem mem_sortedRanges {h : RegionHeader} {r : UInt32 × UInt32} : r ∈ h.sortedRanges ↔ r ∈ h.usedRanges :=
  List.mem_mergeSort

section
variable {h : RegionHeader} {needed fileSectors : UInt32} (hn : needed ≠ 0)
  (hends : h.EndsBy fileSectors.toNat)
include hn hends

omit hn in
theorem toNat_stop {i : Fin chunksPerRegion} (hx : (h.get i).exists' = true) :
    ((h.get i).sectorOffset + (h.get i).sectorCount).toNat = (h.get i).stop := by
  have := hends i hx
  have hf := fileSectors.toNat_lt
  rw [UInt32.toNat_add]
  exact Nat.mod_eq_of_lt (by unfold ChunkEntry.stop at this; omega)

omit hends in
theorem findFreeSectors_eq :
    h.findFreeSectors needed fileSectors = scanGaps needed fileSectors firstDataSector h.sortedRanges := by
  unfold findFreeSectors sortedRanges; rw [if_neg hn]

/-- What the allocator returns is free in the in-memory table, the chunk's own old sectors included. -/
theorem findFreeSectors_free (hlt : (h.findFreeSectors needed fileSectors).toNat + needed.toNat < 2 ^ 32) :
    firstDataSector.toNat ≤ (h.findFreeSectors needed fileSectors).toNat ∧
      h.Free (h.findFreeSectors needed fileSectors).toNat needed.toNat := by
  rw [findFreeSectors_eq hn] at hlt ⊢
  obtain ⟨hle, hall⟩ := scanGaps_clear _ _ h.sortedRanges_pairwise hlt
  refine ⟨hle, fun i hx => ?_⟩
  rcases hall _ (mem_sortedRanges.mpr (mem_usedRanges.mpr ⟨i, hx, rfl⟩)) with hr | hr
  · exact Or.inl hr
  · rw [toNat_stop hends hx] at hr; exact Or.inr hr

theorem findFreeSectors_cases (hlt : (h.findFreeSectors needed fileSectors).toNat + needed.toNat < 2 ^ 32) :
    fileSectors.toNat ≤ (h.findFreeSectors needed fileSectors).toNat ∨
      h.FirstGap needed.toNat (h.findFreeSectors needed fileSectors).toNat := by
  obtain ⟨hfirst, hfree⟩ := findFreeSectors_free hn hends hlt
  rw [findFreeSectors_eq hn] at hlt hfirst hfree ⊢
  rcases scanGaps_cases _ _ hlt with hend | ⟨r, hr, hra⟩
  · exact Or.inl hend
  · obtain ⟨i, hx, rfl⟩ := mem_usedRanges.mp (mem_sortedRanges.mp hr)
    refine Or.inr ⟨⟨hfirst, hfree, i, hx, hra⟩, fun b hb => ?_⟩
    obtain ⟨hb0, hbfree, j, hxj, hbj⟩ := hb
    refine scanGaps_least _ _ b hlt hb0 (fun r hr => ?_) ⟨_, mem_sortedRanges.mpr (mem_usedRanges.mpr ⟨j, hxj, rfl⟩), hbj⟩
    obtain ⟨k, hxk, rfl⟩ := mem_usedRanges.mp (mem_sortedRanges.mp hr)
    rw [toNat_stop hends hxk]
    exact hbfree k hxk

theorem findFreeSectors_of_firstGap (hlt : (h.findFreeSectors needed fileSectors).toNat + needed.toNat < 2 ^ 32)
    {a : Nat} (ha : h.FirstGap needed.toNat a) : (h.findFreeSectors needed fileSectors).toNat = a := by
  obtain ⟨⟨ha0, hafree, j, hxj, haj⟩, hleast⟩ := ha
  have hle : (h.findFreeSectors needed fileSectors).toNat ≤ a := by
    rw [findFreeSectors_eq hn] at hlt ⊢
    refine scanGaps_least _ _ a hlt ha0 (fun r hr => ?_) ⟨_, mem_sortedRanges.mpr (mem_usedRanges.mpr ⟨j, hxj, rfl⟩), haj⟩
    obtain ⟨k, hxk, rfl⟩ := mem_usedRanges.mp (mem_sortedRanges.mp hr)
    rw [toNat_stop hends hxk]
    exact hafree k hxk
  rcases findFreeSectors_cases hn hends hlt with hend | hgap
  · have hj := hends j hxj
    have := (h.get j).start_le_stop
    have hpos : 0 < needed.toNat := Nat.pos_of_ne_zero fun h0 => hn (UInt32.toNat_inj.mp h0)
    omega
  · exact Nat.le_antisymm hle (hleast _ hgap.1)

end

end RegionHeader

/-! ## Validation -/

def validateChunkEntry (e : ChunkEntry) (fileSectors : UInt32) : Except IoError Unit :=
  if e.sectorOffset < firstDataSector then
    .error (invalidData ("chunk table entry points into the region header at sector " ++ toString e.sectorOffset))
  else if e.sizeBytes = 0 ∨ e.sizeBytes.toNat > maxChunkSize then
    .error (invalidData ("invalid chunk table entry size " ++ toString e.sizeBytes))
  else if e.sectorOffset.toNat + e.sectorCount.toNat ≥ 2 ^ 32 then
    .error (invalidData "chunk table entry sector range overflowed")
  else if e.sectorOffset + e.sectorCount > fileSectors then
    .error (invalidData ("chunk table entry ends at sector " ++ toString (e.sectorOffset + e.sectorCount) ++
      ", past region end " ++ toString fileSectors))
  else .ok ()

/-- One `(start, end, index)` for each entry that exists, once it has passed its own checks. -/
def collectAllocations (h : RegionHeader) (fileSectors : UInt32) :
    List (Fin chunksPerRegion) → Except IoError (List (UInt32 × UInt32 × Fin chunksPerRegion))
  | [] => .ok []
  | i :: rest =>
    if (h.get i).exists' then do
      validateChunkEntry (h.get i) fileSectors
      let allocations ← collectAllocations h fileSectors rest
      .ok (((h.get i).sectorOffset, (h.get i).sectorOffset + (h.get i).sectorCount, i) :: allocations)
    else collectAllocations h fileSectors rest

/-- The windows of two over the sorted allocations. -/
def checkOverlaps : List (UInt32 × UInt32 × Fin chunksPerRegion) → Except IoError Unit
  | (_, previousEnd, _) :: (start, stop, i) :: rest =>
    if start < previousEnd then
      .error (invalidData ("chunk table entry " ++ toString i.val ++ " overlaps another region allocation"))
    else checkOverlaps ((start, stop, i) :: rest)
  | _ => .ok ()

def validateRegionEntries (h : RegionHeader) (fileSectors : UInt32) : Except IoError Unit := do
  let allocations ← collectAllocations h fileSectors (List.finRange chunksPerRegion)
  checkOverlaps (allocations.mergeSort fun a b => a.1 ≤ b.1)

/-- An entry a reload accepts in a file of `sectors` sectors. -/
structure ChunkEntry.InRange (e : ChunkEntry) (sectors : Nat) : Prop where
  data : firstDataSector.toNat ≤ e.start
  size_pos : 0 < e.sizeBytes.toNat
  size_le : e.sizeBytes.toNat ≤ maxChunkSize
  ends : e.stop ≤ sectors

theorem ChunkEntry.InRange.start_lt_stop {e : ChunkEntry} {sectors : Nat} (hr : e.InRange sectors) :
    e.start < e.stop := by
  have := hr.size_pos
  unfold start stop
  rw [ChunkEntry.toNat_sectorCount]
  omega

theorem ChunkEntry.InRange.mono {e : ChunkEntry} {a b : Nat} (hr : e.InRange a) (hab : a ≤ b) : e.InRange b :=
  { hr with ends := Nat.le_trans hr.ends hab }

/-- The entries that exist are in range and share no sector. -/
structure RegionHeader.Valid (h : RegionHeader) (sectors : Nat) : Prop where
  inRange : ∀ i, (h.get i).exists' = true → (h.get i).InRange sectors
  disjoint : ∀ i j, (h.get i).exists' = true → (h.get j).exists' = true → i ≠ j →
    (h.get i).stop ≤ (h.get j).start ∨ (h.get j).stop ≤ (h.get i).start

theorem RegionHeader.Valid.endsBy {h : RegionHeader} {sectors : Nat} (hv : h.Valid sectors) : h.EndsBy sectors :=
  fun i hx => (hv.inRange i hx).ends

section
variable {h : RegionHeader} {fileSectors : UInt32}

theorem validateChunkEntry_ok (e : ChunkEntry) :
    validateChunkEntry e fileSectors = .ok () ↔ e.InRange fileSectors.toNat := by
  have hf := fileSectors.toNat_lt
  unfold validateChunkEntry
  constructor
  · intro hok
    split at hok; · cases hok
    split at hok; · cases hok
    split at hok; · cases hok
    split at hok; · cases hok
    rename_i h1 h2 h3 h4
    rw [UInt32.lt_iff_toNat_lt] at h1
    rw [not_or] at h2
    rw [gt_iff_lt, UInt32.lt_iff_toNat_lt, UInt32.toNat_add, Nat.mod_eq_of_lt (by omega)] at h4
    refine ⟨by unfold ChunkEntry.start; omega, ?_, by omega, by unfold ChunkEntry.stop; omega⟩
    exact Nat.pos_of_ne_zero fun h0 => h2.1 (UInt32.toNat_inj.mp h0)
  · rintro ⟨h1, h2, h3, h4⟩
    unfold ChunkEntry.start at h1
    unfold ChunkEntry.stop at h4
    have h2' : e.sizeBytes ≠ 0 := fun h0 => by rw [h0] at h2; exact absurd h2 (by decide)
    rw [if_neg (by rw [UInt32.lt_iff_toNat_lt]; omega), if_neg (by rw [not_or]; exact ⟨h2', by omega⟩),
      if_neg (by omega), if_neg]
    rw [gt_iff_lt, UInt32.lt_iff_toNat_lt, UInt32.toNat_add, Nat.mod_eq_of_lt (by omega)]
    omega

/-- The `(start, end, index)` of an entry. -/
def allocationOf (h : RegionHeader) (i : Fin chunksPerRegion) : UInt32 × UInt32 × Fin chunksPerRegion :=
  ((h.get i).sectorOffset, (h.get i).sectorOffset + (h.get i).sectorCount, i)

theorem collectAllocations_ok : ∀ (l : List (Fin chunksPerRegion)) (r : List (UInt32 × UInt32 × Fin chunksPerRegion)),
    collectAllocations h fileSectors l = .ok r ↔
      (∀ i ∈ l, (h.get i).exists' = true → (h.get i).InRange fileSectors.toNat) ∧
        r = (l.filter fun i => (h.get i).exists').map (allocationOf h)
  | [], r => by
    simp only [collectAllocations, Except.ok.injEq, List.not_mem_nil, false_implies, implies_true,
      List.filter_nil, List.map_nil, true_and]
    exact eq_comm
  | i :: rest, r => by
    unfold collectAllocations
    by_cases hx : (h.get i).exists' = true
    · rw [if_pos hx, List.filter_cons, if_pos hx, List.map_cons]
      cases hv : validateChunkEntry (h.get i) fileSectors with
      | error e =>
        have hno : ¬ (h.get i).InRange fileSectors.toNat := by
          rw [← validateChunkEntry_ok, hv]; simp
        constructor
        · intro h'; cases h'
        · rintro ⟨hall, _⟩; exact absurd (hall i (List.mem_cons_self ..) hx) hno
      | ok u =>
        have hin := (validateChunkEntry_ok _).mp hv
        cases hc : collectAllocations h fileSectors rest with
        | error e =>
          constructor
          · intro h'; cases h'
          · rintro ⟨hall, _⟩
            have := (collectAllocations_ok rest _).mpr
              ⟨fun j hj => hall j (List.mem_cons_of_mem _ hj), rfl⟩
            rw [hc] at this; cases this
        | ok r' =>
          obtain ⟨hall, hr'⟩ := (collectAllocations_ok rest r').mp hc
          subst hr'
          constructor
          · intro h'
            refine ⟨fun j hj hxj => ?_, ?_⟩
            · rcases List.mem_cons.mp hj with rfl | hj
              · exact hin
              · exact hall j hj hxj
            · exact (Except.ok.inj h').symm
          · rintro ⟨_, rfl⟩; rfl
    · rw [if_neg hx, List.filter_cons, if_neg hx, collectAllocations_ok rest r]
      simp only [List.forall_mem_cons, hx, false_implies, true_and, Bool.false_eq_true]

theorem checkOverlaps_ok : ∀ (l : List (UInt32 × UInt32 × Fin chunksPerRegion)),
    checkOverlaps l = .ok () ↔ l.IsChain fun a b => a.2.1.toNat ≤ b.1.toNat
  | [] => by simp [checkOverlaps]
  | [a] => by simp [checkOverlaps]
  | (s, e, i) :: (s', e', i') :: rest => by
    unfold checkOverlaps
    rw [List.isChain_cons_cons, ← checkOverlaps_ok ((s', e', i') :: rest)]
    split
    · rename_i hlt
      rw [UInt32.lt_iff_toNat_lt] at hlt
      constructor
      · intro h'; cases h'
      · rintro ⟨hle, _⟩; simp only at hle; omega
    · rename_i hlt
      rw [UInt32.lt_iff_toNat_lt] at hlt
      exact ⟨fun h' => ⟨Nat.le_of_not_lt hlt, h'⟩, fun h' => h'.2⟩

/-- Sorted by start, non-empty ranges that follow one another are pairwise disjoint, and conversely. -/
theorem isChain_iff_disjoint : ∀ (l : List (UInt32 × UInt32 × Fin chunksPerRegion)),
    (l.Pairwise fun a b => a.1.toNat ≤ b.1.toNat) → (∀ a ∈ l, a.1.toNat < a.2.1.toNat) →
    ((l.IsChain fun a b => a.2.1.toNat ≤ b.1.toNat) ↔
      l.Pairwise fun a b => a.2.1.toNat ≤ b.1.toNat ∨ b.2.1.toNat ≤ a.1.toNat)
  | [], _, _ => by simp
  | [a], _, _ => by simp
  | a :: b :: l, hs, hne => by
    rw [List.pairwise_cons] at hs
    rw [List.isChain_cons_cons, List.pairwise_cons,
      isChain_iff_disjoint (b :: l) hs.2 fun x hx => hne x (List.mem_cons_of_mem _ hx)]
    refine and_congr_left fun hp => ?_
    constructor
    · intro hab c hc
      rcases List.mem_cons.mp hc with rfl | hc
      · exact Or.inl hab
      · exact Or.inl (Nat.le_trans hab ((List.pairwise_cons.mp hs.2).1 c hc))
    · intro hall
      rcases hall b (List.mem_cons_self ..) with h' | h'
      · exact h'
      · have := hne b (by simp)
        have := hs.1 b (List.mem_cons_self ..)
        omega

/-- The allocations of the entries `l` names have no overlap exactly when the entries have none. -/
theorem checkOverlaps_allocations {l : List (Fin chunksPerRegion)} (hnd : l.Nodup)
    (hin : ∀ i ∈ l, (h.get i).InRange fileSectors.toNat)
    (hstop : ∀ i ∈ l, (allocationOf h i).2.1.toNat = (h.get i).stop) :
    checkOverlaps ((l.map (allocationOf h)).mergeSort fun a b => a.1 ≤ b.1) = .ok () ↔
      ∀ i ∈ l, ∀ j ∈ l, i ≠ j → (h.get i).stop ≤ (h.get j).start ∨ (h.get j).stop ≤ (h.get i).start := by
  rw [checkOverlaps_ok, isChain_iff_disjoint _ (pairwise_mergeSort_key Prod.fst _)]
  · rw [(List.mergeSort_perm _ _).pairwise_iff (fun hab => hab.symm), List.pairwise_map]
    constructor
    · intro hp i hi j hj hij
      have : Std.Symm fun i j => (allocationOf h i).2.1.toNat ≤ (allocationOf h j).1.toNat ∨
          (allocationOf h j).2.1.toNat ≤ (allocationOf h i).1.toNat := ⟨fun _ _ h' => h'.symm⟩
      have h' := hp.forall hi hj hij
      rwa [hstop i hi, hstop j hj] at h'
    · intro hall
      refine hnd.pairwise_of_forall_ne fun i hi j hj hij => ?_
      rw [hstop i hi, hstop j hj]
      exact hall i hi j hj hij
  · intro a ha
    rw [List.mem_mergeSort] at ha
    obtain ⟨i, hi, rfl⟩ := List.mem_map.mp ha
    rw [hstop i hi]
    exact (hin i hi).start_lt_stop

/-- `validate_region_entries` accepts exactly the valid tables. -/
theorem validateRegionEntries_ok : validateRegionEntries h fileSectors = .ok () ↔ h.Valid fileSectors.toNat := by
  have hmem : ∀ i, i ∈ (List.finRange chunksPerRegion).filter (fun i => (h.get i).exists') ↔
      (h.get i).exists' = true := fun i => by simp
  have hnd := (List.nodup_finRange chunksPerRegion).filter fun i => (h.get i).exists'
  unfold validateRegionEntries
  cases hc : collectAllocations h fileSectors (List.finRange chunksPerRegion) with
  | error e =>
    constructor
    · intro h'; cases h'
    · intro hv
      have := (collectAllocations_ok (List.finRange chunksPerRegion) _).mpr ⟨fun i _ hx => hv.inRange i hx, rfl⟩
      rw [hc] at this; cases this
  | ok r =>
    obtain ⟨hin, hr⟩ := (collectAllocations_ok _ r).mp hc
    rw [hr]
    have hin' : ∀ i, (h.get i).exists' = true → (h.get i).InRange fileSectors.toNat :=
      fun i hx => hin i (List.mem_finRange i) hx
    have hover := checkOverlaps_allocations hnd (fun i hi => hin' i ((hmem i).mp hi))
      (fun i hi => RegionHeader.toNat_stop (fun j hx => (hin' j hx).ends) ((hmem i).mp hi))
    refine Iff.trans hover ?_
    constructor
    · intro hd
      exact ⟨hin', fun i j hi hj => hd i ((hmem i).mpr hi) j ((hmem j).mpr hj)⟩
    · intro hv i hi j hj
      exact hv.disjoint i j ((hmem i).mp hi) ((hmem j).mp hj)

end

/-!
## First fit in a validated table

An entry has at most 4096 sectors and a table 1024 entries. As long as a scan for
at most 4096 sectors has found no gap, its cursor has therefore passed only a few
million sectors, however large the file may be; so no sum of the scan leaves 32
bits.
-/

theorem ChunkEntry.InRange.sectorCount_le {e : ChunkEntry} {sectors : Nat} (h : e.InRange sectors) :
    e.sectorCount.toNat ≤ 4096 := by
  have hsize := h.size_le
  rw [ChunkEntry.toNat_sectorCount]
  unfold maxChunkSize at hsize
  omega

namespace RegionHeader

section
variable {needed fileSectors : UInt32}

/-- The sums of the scan, up to the gap that ends it, fit 32 bits. -/
def ScanFits (needed : UInt32) : UInt32 → List (UInt32 × UInt32) → Prop
  | _, [] => True
  | current, (start, stop) :: rest =>
    current.toNat + needed.toNat < 2 ^ 32 ∧ (start ≥ current + needed ∨ ScanFits needed (max current stop) rest)

/-- Every sum that `find_free_sectors` computes fits 32 bits. -/
def SumsFit (h : RegionHeader) (needed : UInt32) : Prop :=
  (∀ i, (h.get i).exists' = true → (h.get i).sectorOffset.toNat + (h.get i).sectorCount.toNat < 2 ^ 32) ∧
    ScanFits needed firstDataSector h.sortedRanges

/-- The end of the last allocation. -/
def lastStop (h : RegionHeader) : Nat := ((h.list.filter ChunkEntry.exists').map ChunkEntry.stop).foldr max 0

/-- The lowest gap, or the end of the file and of the allocations when there is no gap. -/
def LowestFree (h : RegionHeader) (n sectors a : Nat) : Prop :=
  h.FirstGap n a ∨ (¬ ∃ b, h.Gap n b) ∧ a = max h.lastStop sectors

/-- Without a gap, each range moves the cursor by less than two whole entries. -/
theorem scanFits_of_short : ∀ (l : List (UInt32 × UInt32)) (current : UInt32),
    (∀ r ∈ l, r.2.toNat ≤ r.1.toNat + 4096) → needed.toNat ≤ 4096 →
    current.toNat + l.length * 8192 < 2 ^ 31 → ScanFits needed current l
  | [], _, _, _, _ => trivial
  | (start, stop) :: rest, current, hshort, hneeded, hroom => by
    rw [List.length_cons] at hroom
    have hsum : (current + needed).toNat = current.toNat + needed.toNat := by
      rw [UInt32.toNat_add]
      exact Nat.mod_eq_of_lt (by omega)
    refine ⟨by omega, ?_⟩
    by_cases hgap : start ≥ current + needed
    · exact Or.inl hgap
    · right
      apply scanFits_of_short rest _ (fun r hr => hshort r (List.mem_cons_of_mem _ hr)) hneeded
      have hlow : start.toNat < current.toNat + needed.toNat := by
        rw [← hsum]
        exact UInt32.lt_iff_toNat_lt.mp (UInt32.not_le.mp hgap)
      have hstop := hshort _ List.mem_cons_self
      simp only at hstop
      rw [toNat_max_uint32]
      omega

/-- A scan without overflow ends in a gap, or it passes every place and takes the end of the file. -/
theorem scanGaps_of_fits : ∀ (l : List (UInt32 × UInt32)) (current : UInt32), ScanFits needed current l →
    (∀ r ∈ l, r.2.toNat ≤ fileSectors.toNat) → current.toNat ≤ fileSectors.toNat →
    (∃ r ∈ l, (scanGaps needed fileSectors current l).toNat + needed.toNat ≤ r.1.toNat) ∨
      (scanGaps needed fileSectors current l).toNat = fileSectors.toNat ∧
        ∀ a, current.toNat ≤ a → (∀ r ∈ l, a + needed.toNat ≤ r.1.toNat ∨ r.2.toNat ≤ a) →
          ∀ r ∈ l, ¬ a + needed.toNat ≤ r.1.toNat
  | [], current, _, _, hcurrent => by
    right
    refine ⟨?_, by simp⟩
    rw [scanGaps, toNat_max_uint32]
    exact Nat.max_eq_right hcurrent
  | (start, stop) :: rest, current, ⟨hsum, hfits⟩, hends, hcurrent => by
    unfold scanGaps
    by_cases hgap : start ≥ current + needed
    · rw [if_pos hgap]
      exact Or.inl ⟨_, List.mem_cons_self, add_le_start hgap hsum⟩
    · rw [if_neg hgap]
      have hstop : stop.toNat ≤ fileSectors.toNat := hends _ List.mem_cons_self
      have hlow : start.toNat < current.toNat + needed.toNat := by
        have hlt := UInt32.lt_iff_toNat_lt.mp (UInt32.not_le.mp hgap)
        rwa [UInt32.toNat_add, Nat.mod_eq_of_lt hsum] at hlt
      have hnext : (max current stop).toNat = max current.toNat stop.toNat := toNat_max_uint32 current stop
      rcases scanGaps_of_fits rest (max current stop) (hfits.resolve_left hgap)
          (fun r hr => hends r (List.mem_cons_of_mem _ hr)) (by omega) with ⟨r, hr, hra⟩ | ⟨hend, hnone⟩
      · exact Or.inl ⟨r, List.mem_cons_of_mem _ hr, hra⟩
      · refine Or.inr ⟨hend, fun a ha hclear r hr hra => ?_⟩
        -- a place that would do lies past this range
        have hpast : stop.toNat ≤ a := by
          rcases hclear _ List.mem_cons_self with h | h
          · simp only at h
            omega
          · exact h
        rcases List.mem_cons.mp hr with rfl | hr
        · simp only at hra
          omega
        · exact hnone a (by omega) (fun r hr => hclear r (List.mem_cons_of_mem _ hr)) r hr hra

end

variable {h : RegionHeader} {needed fileSectors : UInt32}

theorem length_sortedRanges_le (h : RegionHeader) : h.sortedRanges.length ≤ chunksPerRegion := by
  unfold sortedRanges usedRanges
  rw [List.length_mergeSort, List.length_map]
  refine (List.length_filter_le _ _).trans ?_
  simp [list]

theorem sumsFit (hvalid : h.Valid fileSectors.toNat) (hneeded : needed.toNat ≤ 4096) : h.SumsFit needed := by
  have hends := hvalid.endsBy
  refine ⟨fun i hi => ?_, scanFits_of_short _ _ (fun r hr => ?_) hneeded ?_⟩
  · have hstop := hends i hi
    have hfile := fileSectors.toNat_lt
    unfold ChunkEntry.stop at hstop
    omega
  · obtain ⟨i, hi, rfl⟩ := mem_usedRanges.mp (mem_sortedRanges.mp hr)
    simp only
    rw [toNat_stop hends hi]
    have hcount := (hvalid.inRange i hi).sectorCount_le
    unfold ChunkEntry.stop
    omega
  · have hlength := h.length_sortedRanges_le
    have hfirst : firstDataSector.toNat = 3 := rfl
    simp only [chunksPerRegion, regionSize] at hlength
    omega

theorem lastStop_le (hends : h.EndsBy fileSectors.toNat) : h.lastStop ≤ fileSectors.toNat := by
  have hall : ∀ e ∈ h.list.filter ChunkEntry.exists', e.stop ≤ fileSectors.toNat := fun e he => by
    obtain ⟨hmem, hexists⟩ := List.mem_filter.mp he
    obtain ⟨i, rfl⟩ := mem_list.mp hmem
    exact hends i hexists
  unfold lastStop
  revert hall
  induction h.list.filter ChunkEntry.exists' with
  | nil =>
    intro _
    exact Nat.zero_le _
  | cons e l ih =>
    intro hall
    rw [List.map_cons, List.foldr_cons]
    exact Nat.max_le.mpr ⟨hall e List.mem_cons_self, ih fun e he => hall e (List.mem_cons_of_mem _ he)⟩

/-- In a table that validation accepts, the allocator computes without overflow, and
takes the lowest gap before an allocation or else the end of the file. -/
theorem findFreeSectors_lowest (h : RegionHeader) (needed fileSectors : UInt32)
    (hvalid : validateRegionEntries h fileSectors = .ok ()) (hfile : firstDataSector ≤ fileSectors)
    (hpos : 1 ≤ needed.toNat) (hneeded : needed.toNat ≤ 4096) :
    h.SumsFit needed ∧ h.LowestFree needed.toNat fileSectors.toNat (h.findFreeSectors needed fileSectors).toNat := by
  have hvalid := validateRegionEntries_ok.mp hvalid
  have hends := hvalid.endsBy
  have hn : needed ≠ 0 := fun h0 => by simp [h0] at hpos
  have hsums : h.SumsFit needed := sumsFit hvalid hneeded
  refine ⟨hsums, ?_⟩
  have hscan := @findFreeSectors_eq h needed fileSectors hn
  have hranges : ∀ r ∈ h.sortedRanges, r.2.toNat ≤ fileSectors.toNat := fun r hr => by
    obtain ⟨i, hi, rfl⟩ := mem_usedRanges.mp (mem_sortedRanges.mp hr)
    simp only
    rw [toNat_stop hends hi]
    exact hends i hi
  rcases scanGaps_of_fits _ _ hsums.2 hranges (UInt32.le_iff_toNat_le.mp hfile) with ⟨r, hr, hra⟩ | ⟨hend, hnone⟩
  · -- below a range, so below the sector limit
    have hlt : (h.findFreeSectors needed fileSectors).toNat + needed.toNat < 2 ^ 32 := by
      rw [hscan]
      exact Nat.lt_of_le_of_lt hra r.1.toNat_lt
    obtain ⟨i, hi, rfl⟩ := mem_usedRanges.mp (mem_sortedRanges.mp hr)
    obtain ⟨hfirst, hfree⟩ := findFreeSectors_free hn hends hlt
    refine Or.inl ⟨⟨hfirst, hfree, i, hi, by rw [hscan]; exact hra⟩, fun b hb => ?_⟩
    obtain ⟨hb0, hbfree, j, hj, hbj⟩ := hb
    rw [hscan] at hlt ⊢
    refine scanGaps_least _ _ b hlt hb0 (fun r hr => ?_) ⟨_, mem_sortedRanges.mpr (mem_usedRanges.mpr ⟨j, hj, rfl⟩), hbj⟩
    obtain ⟨k, hk, rfl⟩ := mem_usedRanges.mp (mem_sortedRanges.mp hr)
    rw [toNat_stop hends hk]
    exact hbfree k hk
  · refine Or.inr ⟨?_, ?_⟩
    · rintro ⟨b, hb0, hbfree, j, hj, hbj⟩
      refine hnone b hb0 (fun r hr => ?_) _ (mem_sortedRanges.mpr (mem_usedRanges.mpr ⟨j, hj, rfl⟩)) hbj
      obtain ⟨k, hk, rfl⟩ := mem_usedRanges.mp (mem_sortedRanges.mp hr)
      rw [toNat_stop hends hk]
      exact hbfree k hk
    · rw [hscan, hend, Nat.max_eq_right (lastStop_le hends)]

/-- A table with one chunk, of one sector. -/
def oneChunk : RegionHeader := new.set ⟨0, by decide⟩ ⟨5, 1, .empty⟩

theorem findFreeSectors_oneChunk : oneChunk.SumsFit 3 ∧
    oneChunk.LowestFree 3 10 (oneChunk.findFreeSectors 3 10).toNat := by
  have hentry : ∀ i, (oneChunk.get i).exists' = true → i = ⟨0, by decide⟩ := fun i hi => by
    by_contra hne
    rw [oneChunk, get_set, if_neg (Ne.symm hne), get_new, ChunkEntry.empty_exists'] at hi
    cases hi
  have hvalid : oneChunk.Valid (10 : UInt32).toNat := by
    refine ⟨fun i hi => ?_, fun i j hi hj hne => absurd ((hentry i hi).trans (hentry j hj).symm) hne⟩
    rw [hentry i hi, oneChunk, get_set, if_pos rfl]
    exact ⟨by decide, by decide, by decide, by decide⟩
  exact findFreeSectors_lowest oneChunk 3 10 (validateRegionEntries_ok.mpr hvalid) (by decide) (by decide) (by decide)

end RegionHeader

end Foton

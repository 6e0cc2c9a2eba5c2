import Foton.Heightmap.Map
import Mathlib.Order.Fin.Basic

/-!
# Priming finds the tops

The scan goes down layer by layer. At every level a type is pending in a column
as long as its top is not above the level, and has been set otherwise.
-/

namespace Foton

variable {traits : BlockStateId → HeightmapTraits}

/-! ## Opacity -/

theorem mem_worldSurfaceOpacityMask {t : HeightmapType} {state : BlockStateId}
    (h : t ∈ ({.worldSurface, .worldSurfaceWg} : HeightmapMask)) :
    t ∈ worldSurfaceOpacityMask traits state ↔ t ∈ stateOpacityMask traits state := by
  unfold worldSurfaceOpacityMask stateOpacityMask
  split
  · rfl
  · simp only [Finset.mem_union, h, true_or]

theorem mem_heightmapOpacityMask {t : HeightmapType} {state : BlockStateId} {requestedMask : HeightmapMask} :
    t ∈ heightmapOpacityMask traits state requestedMask ↔ t ∈ requestedMask ∧ t ∈ stateOpacityMask traits state := by
  unfold heightmapOpacityMask
  split
  · rename_i hsub
    rw [Finset.mem_inter, and_comm]
    exact and_congr_right fun ht => mem_worldSurfaceOpacityMask (hsub ht)
  · rw [Finset.mem_inter, and_comm]

namespace HeightmapType

theorem isOpaque_iff {t : HeightmapType} {state : BlockStateId} : t.isOpaque traits state = true ↔ t ∈ stateOpacityMask traits state := by
  unfold isOpaque mask
  rw [decide_eq_true_iff]
  constructor
  · intro h
    obtain ⟨t', ht'⟩ := Finset.nonempty_iff_ne_empty.mpr h
    obtain ⟨heq, hmem⟩ := mem_heightmapOpacityMask.mp ht'
    rwa [← Finset.mem_singleton.mp heq]
  · intro h
    exact Finset.nonempty_iff_ne_empty.mp ⟨t, mem_heightmapOpacityMask.mpr ⟨Finset.mem_singleton_self t, h⟩⟩

theorem isOpaque_air {t : HeightmapType} {state : BlockStateId} (h : (traits state).isAir = true) : t.isOpaque traits state = false := by
  rw [← Bool.not_eq_true, isOpaque_iff, stateOpacityMask, if_pos h]
  exact Finset.notMem_empty t

end HeightmapType

/-! ## Columns -/

theorem getIndex_column (column : Fin 256) : Heightmap.getIndex (columnX column) (columnZ column) = column := by
  apply Fin.ext
  simp only [Heightmap.getIndex, columnX, columnZ]
  omega

theorem ofInt_natCast (n : Nat) : UInt16.ofInt (n : Int) = UInt16.ofNat n := by
  have h : ((n : Int) % 2 ^ 16).toNat = n % 2 ^ 16 := by omega
  unfold UInt16.ofInt
  rw [h]
  exact UInt16.ofNat_mod_size

theorem data_setHeight (m : Heightmap) (column column' : Fin 256) (y : Int) :
    (m.setHeight (columnX column) (columnZ column) y).data[column'] =
      if column' = column then UInt16.ofInt (y - m.minY) else m.data[column'] := by
  have hindex : (m.setHeight (columnX column) (columnZ column) y).data = m.data.set column (UInt16.ofInt (y - m.minY)) := by
    simp only [Heightmap.setHeight, getIndex_column]
  rw [hindex]
  split
  · rename_i heq
    subst heq
    exact Vector.getElem_set_self ..
  · rename_i hne
    exact Vector.getElem_set_ne _ _ fun hval => hne (Fin.ext hval.symm)

theorem columnX_getIndex (x z : Fin 16) : columnX (Heightmap.getIndex x z) = x := by
  apply Fin.ext
  simp only [Heightmap.getIndex, columnX]
  omega

theorem columnZ_getIndex (x z : Fin 16) : columnZ (Heightmap.getIndex x z) = z := by
  apply Fin.ext
  simp only [Heightmap.getIndex, columnZ]
  omega

theorem layer_lt (h : Nat) : h % 16 < 16 := Nat.mod_lt h (by decide)

/-- The cell of a column at a height above the bottom. -/
def columnCell (sections : List ChunkSection) (x z : Fin 16) (h : Nat) : BlockStateId :=
  match sections[h / 16]? with
  | some section' => section'.states.get x ⟨h % 16, layer_lt h⟩ z
  | none => ⟨0⟩

variable (traits) in
def columnOpaque (sections : List ChunkSection) (t : HeightmapType) (x z : Fin 16) (h : Nat) : Bool :=
  t.isOpaque traits (columnCell sections x z h)

variable (traits) in
/-- One above the highest cell of a column that counts for a type. -/
def columnTop (sections : List ChunkSection) (t : HeightmapType) (x z : Fin 16) : Nat :=
  top (columnOpaque traits sections t x z) (sections.length * 16)

variable (traits) in
/-- The heightmap of a type that tells the top of every column. -/
structure Heightmap.Tells (sections : List ChunkSection) (minY height : Int) (t : HeightmapType) (m : Heightmap) : Prop where
  mapType : m.mapType = t
  minY : m.minY = minY
  height : m.height = height
  data : ∀ column : Fin 256, m.data[column] = UInt16.ofNat (columnTop traits sections t (columnX column) (columnZ column))

theorem Heightmap.Tells.unique {sections : List ChunkSection} {minY height : Int} {t : HeightmapType} {m m' : Heightmap}
    (h : m.Tells traits sections minY height t) (h' : m'.Tells traits sections minY height t) : m = m' := by
  obtain ⟨data, mapType, bottom, extent⟩ := m
  obtain ⟨data', mapType', bottom', extent'⟩ := m'
  obtain ⟨rfl, rfl, rfl, hdata⟩ := h
  obtain ⟨hmapType, hminY, hheight, hdata'⟩ := h'
  have hsame : data = data' := Vector.ext fun i hi => (hdata ⟨i, hi⟩).trans (hdata' ⟨i, hi⟩).symm
  rw [hsame]
  exact congr (congr (congrArg _ hmapType.symm) hminY.symm) hheight.symm

/-! ## The scan -/

section Scan

variable (traits) (sections : List ChunkSection) (types : List HeightmapType) (minY height : Int)

/-- Each column has been scanned down to its level. -/
structure PrimeState.Scanned (level : Fin 256 → Nat) (s : PrimeState) : Prop where
  pending : ∀ column t, t ∈ s.pendingMasks[column] ↔
    t ∈ types ∧ columnTop traits sections t (columnX column) (columnZ column) ≤ level column
  maps : ∀ t ∈ types, ∃ m, s.maps t = some m ∧ m.mapType = t ∧ m.minY = minY ∧ m.height = height ∧
    ∀ column : Fin 256, m.data[column] = UInt16.ofNat
      (if level column < columnTop traits sections t (columnX column) (columnZ column) then
        columnTop traits sections t (columnX column) (columnZ column) else 0)
  columns : s.pendingColumns = (List.finRange 256).countP fun column => decide (s.pendingMasks[column] ≠ ∅)

variable {traits sections types minY height} {level : Fin 256 → Nat} {s : PrimeState}

theorem PrimeState.Scanned.lower (h : s.Scanned traits sections types minY height level) {level' : Fin 256 → Nat}
    (hsame : ∀ column, ∀ t ∈ types, columnTop traits sections t (columnX column) (columnZ column) ≤ level column ↔
      columnTop traits sections t (columnX column) (columnZ column) ≤ level' column) :
    s.Scanned traits sections types minY height level' where
  pending column t := (h.pending column t).trans (and_congr_right fun ht => hsame column t ht)
  maps t ht := by
    obtain ⟨m, hm, hmapType, hminY, hheight, hdata⟩ := h.maps t ht
    refine ⟨m, hm, hmapType, hminY, hheight, fun column => ?_⟩
    rw [hdata column]
    have := hsame column t ht
    simp only [← Nat.not_le, this]
  columns := h.columns

theorem PrimeState.Scanned.pending_of_columns (h : s.Scanned traits sections types minY height level)
    (hzero : s.pendingColumns = 0) (column : Fin 256) : s.pendingMasks[column] = ∅ := by
  rw [h.columns, List.countP_eq_zero] at hzero
  simpa using hzero column (List.mem_finRange column)

theorem PrimeState.Scanned.finished (h : s.Scanned traits sections types minY height level) (hzero : s.pendingColumns = 0)
    {level' : Fin 256 → Nat} (hle : ∀ column, level' column ≤ level column) :
    s.Scanned traits sections types minY height level' := by
  refine h.lower fun column t ht => ?_
  have hnot : ¬ columnTop traits sections t (columnX column) (columnZ column) ≤ level column := by
    intro hpending
    have hmem := (h.pending column t).mpr ⟨ht, hpending⟩
    rw [h.pending_of_columns hzero] at hmem
    exact Finset.notMem_empty t hmem
  have := hle column
  constructor <;> intro h' <;> omega

theorem foldl_setPrimedHeight (maps : ChunkHeightmaps) (matchedMask : HeightmapMask) (x z : Fin 16) (y : Int) (t : HeightmapType) :
    ((types.map fun t => (t, t.mask)).foldl (fun maps e =>
        if matchedMask ∩ e.2 ≠ ∅ then ChunkHeightmaps.setPrimedHeight maps e.1 x z y else maps) maps) t =
      if t ∈ types ∧ t ∈ matchedMask then (maps t).map fun m => m.setHeight x z y else maps t := by
  have hmatch : ∀ t' : HeightmapType, matchedMask ∩ t'.mask ≠ ∅ ↔ t' ∈ matchedMask := by
    intro t'
    rw [← Finset.nonempty_iff_ne_empty]
    constructor
    · rintro ⟨u, hu⟩
      obtain ⟨hmem, heq⟩ := Finset.mem_inter.mp hu
      rwa [← Finset.mem_singleton.mp heq]
    · exact fun hmem => ⟨t', Finset.mem_inter.mpr ⟨hmem, Finset.mem_singleton_self t'⟩⟩
  have htwice : ∀ m : Heightmap, (m.setHeight x z y).setHeight x z y = m.setHeight x z y := by
    intro m
    simp [Heightmap.setHeight]
  induction types generalizing maps with
  | nil => simp
  | cons t' rest ih =>
    rw [List.map_cons, List.foldl_cons, ih]
    simp only [hmatch]
    by_cases hmem : t' ∈ matchedMask
    · rw [if_pos hmem]
      by_cases heq : t = t'
      · subst heq
        simp only [ChunkHeightmaps.setPrimedHeight, Function.update_self, List.mem_cons, true_or, hmem, and_self, if_true,
          and_true, Option.map_map]
        split
        · congr 1
          funext m
          exact htwice m
        · rfl
      · simp [ChunkHeightmaps.setPrimedHeight, heq]
    · rw [if_neg hmem]
      by_cases heq : t = t'
      · subst heq
        simp [hmem]
      · simp [heq]

variable {h : Nat}

theorem columnTop_eq_iff {t : HeightmapType} {x z : Fin 16} (hh : h < sections.length * 16)
    (hle : columnTop traits sections t x z ≤ h + 1) :
    columnTop traits sections t x z = h + 1 ↔ columnOpaque traits sections t x z h = true := by
  constructor
  · intro heq
    have := top_pred (p := columnOpaque traits sections t x z) (n := sections.length * 16) (by
      show 0 < columnTop traits sections t x z
      omega)
    unfold columnTop at heq
    rwa [heq] at this
  · intro hcounts
    have := lt_top hh hcounts
    unfold columnTop at hle ⊢
    omega

theorem PrimeState.primeColumn_scanned (hs : s.Scanned traits sections types minY height level) {column : Fin 256}
    {cell : Fin 256 → BlockStateId} (hh : h < sections.length * 16) (hlevel : level column = h + 1)
    (hcell : cell column = columnCell sections (columnX column) (columnZ column) h) :
    (s.primeColumn traits (types.map fun t => (t, t.mask)) (minY + h) cell column).Scanned traits sections types minY height
      (Function.update level column h) := by
  have hcounts : ∀ t, t ∈ stateOpacityMask traits (cell column) ↔
      columnOpaque traits sections t (columnX column) (columnZ column) h = true := by
    intro t
    rw [← HeightmapType.isOpaque_iff, hcell]
    rfl
  -- A type that is not found in this cell stays pending.
  have hstay : ∀ t ∈ types, columnOpaque traits sections t (columnX column) (columnZ column) h ≠ true →
      (columnTop traits sections t (columnX column) (columnZ column) ≤ h + 1 ↔
        columnTop traits sections t (columnX column) (columnZ column) ≤ h) := by
    intro t _ hnot
    constructor
    · intro hle
      have := mt (columnTop_eq_iff hh hle).mp hnot
      omega
    · omega
  have hunmatched : (∀ t ∈ s.pendingMasks[column], t ∉ stateOpacityMask traits (cell column)) →
      s.Scanned traits sections types minY height (Function.update level column h) := by
    intro hnone
    refine hs.lower fun column' t ht => ?_
    by_cases heq : column' = column
    · subst heq
      rw [Function.update_self, hlevel]
      by_cases hle : columnTop traits sections t (columnX column') (columnZ column') ≤ h + 1
      · have hmem := (hs.pending column' t).mpr ⟨ht, by rw [hlevel]; exact hle⟩
        exact hstay t ht fun hop => hnone t hmem ((hcounts t).mpr hop)
      · constructor <;> intro h' <;> omega
    · rw [Function.update_of_ne heq]
  unfold primeColumn
  dsimp only
  split
  · rename_i hempty
    exact hunmatched fun t ht => absurd (hempty ▸ ht) (Finset.notMem_empty t)
  · rename_i hpending
    split
    · rename_i hmatched
      refine hunmatched fun t ht hmem => ?_
      have := mem_heightmapOpacityMask.mpr ⟨ht, hmem⟩
      rw [hmatched] at this
      exact Finset.notMem_empty t this
    · constructor
      · intro column' t
        dsimp only
        by_cases heq : column' = column
        · subst heq
          rw [Function.update_self]
          simp only [Fin.getElem_fin, Vector.getElem_set_self, Finset.mem_sdiff, mem_heightmapOpacityMask]
          have hp := hs.pending column' t
          rw [hlevel] at hp
          simp only [Fin.getElem_fin] at hp
          rw [hp, hcounts]
          constructor
          · rintro ⟨⟨ht, hle⟩, hnot⟩
            exact ⟨ht, (hstay t ht fun hop => hnot ⟨⟨ht, hle⟩, hop⟩).mp hle⟩
          · rintro ⟨ht, hle⟩
            refine ⟨⟨ht, by omega⟩, fun hmem => ?_⟩
            have := (columnTop_eq_iff hh (by omega)).mpr hmem.2
            omega
        · rw [Function.update_of_ne heq]
          have hne : (column : Nat) ≠ column' := fun hval => heq (Fin.ext hval.symm)
          simp only [Fin.getElem_fin, Vector.getElem_set_ne _ _ hne]
          exact hs.pending column' t
      · intro t ht
        obtain ⟨m, hm, hmapType, hminY, hheight, hdata⟩ := hs.maps t ht
        dsimp only
        rw [foldl_setPrimedHeight, hm]
        have hp := hs.pending column t
        rw [hlevel] at hp
        by_cases hmem : t ∈ heightmapOpacityMask traits (cell column) s.pendingMasks[column]
        · rw [if_pos ⟨ht, hmem⟩]
          refine ⟨_, rfl, hmapType, hminY, hheight, fun column' => ?_⟩
          rw [data_setHeight]
          by_cases heq : column' = column
          · subst heq
            obtain ⟨hpend, hop⟩ := mem_heightmapOpacityMask.mp hmem
            have htop := (columnTop_eq_iff hh (hp.mp hpend).2).mpr ((hcounts t).mp hop)
            have hcast : minY + ↑h + 1 - m.minY = ((h + 1 : Nat) : Int) := by
              rw [hminY]
              push_cast
              omega
            rw [if_pos rfl, Function.update_self, htop, if_pos (Nat.lt_succ_self h), hcast]
            exact ofInt_natCast (h + 1)
          · rw [if_neg heq, Function.update_of_ne heq]
            exact hdata column'
        · rw [if_neg fun hboth => hmem hboth.2]
          refine ⟨m, rfl, hmapType, hminY, hheight, fun column' => ?_⟩
          rw [hdata column']
          by_cases heq : column' = column
          · subst heq
            rw [Function.update_self, hlevel]
            by_cases hle : columnTop traits sections t (columnX column') (columnZ column') ≤ h + 1
            · have := hstay t ht fun hop => hmem (mem_heightmapOpacityMask.mpr ⟨hp.mpr ⟨ht, hle⟩, (hcounts t).mpr hop⟩)
              simp only [← Nat.not_le, this]
            · rw [if_pos (by omega), if_pos (by omega)]
          · rw [Function.update_of_ne heq]
      · dsimp only
        have hmem := List.mem_finRange column
        have hsplit : ∀ p : Fin 256 → Bool, (List.finRange 256).countP p =
            ((List.finRange 256).erase column).countP p + if p column then 1 else 0 := by
          intro p
          rw [(List.perm_cons_erase hmem).countP_eq, List.countP_cons]
        have hothers : ((List.finRange 256).erase column).countP (fun column' =>
            decide ((s.pendingMasks.set column (s.pendingMasks[column] \ heightmapOpacityMask traits (cell column) s.pendingMasks[column]))[column'] ≠ ∅)) =
            ((List.finRange 256).erase column).countP fun column' => decide (s.pendingMasks[column'] ≠ ∅) := by
          refine List.countP_congr fun column' hcolumn' => ?_
          have hne : (column : Nat) ≠ column' := by
            intro hval
            rw [List.Nodup.mem_erase_iff (List.nodup_finRange 256)] at hcolumn'
            exact hcolumn'.1 (Fin.ext hval.symm)
          simp only [Fin.getElem_fin, Vector.getElem_set_ne _ _ hne]
        rw [hsplit, hothers, hs.columns, hsplit]
        simp only [Fin.getElem_fin, Vector.getElem_set_self] at hpending ⊢
        split
        · rename_i hleft
          simp [hpending, hleft]
        · rename_i hleft
          simp [hpending, hleft]

/-! ## Layers and sections -/

theorem PrimeState.foldl_primeColumn_scanned {cell : Fin 256 → BlockStateId} (hh : h < sections.length * 16)
    (hcell : ∀ column, cell column = columnCell sections (columnX column) (columnZ column) h) {columns : List (Fin 256)}
    (hnodup : columns.Nodup) (hs : s.Scanned traits sections types minY height level)
    (hlevel : ∀ column, level column = if column ∈ columns then h + 1 else h) :
    (columns.foldl (primeColumn traits (types.map fun t => (t, t.mask)) (minY + h) cell) s).Scanned traits sections types minY
      height fun _ => h := by
  induction columns generalizing s level with
  | nil =>
    refine hs.lower fun column t _ => ?_
    rw [hlevel column, if_neg (List.not_mem_nil)]
  | cons column rest ih =>
    obtain ⟨hnot, hrest⟩ := List.nodup_cons.mp hnodup
    refine ih hrest (primeColumn_scanned hs hh (by rw [hlevel, if_pos (List.mem_cons_self ..)]) (hcell column)) ?_
    intro column'
    by_cases heq : column' = column
    · subst heq
      rw [Function.update_self, if_neg hnot]
    · rw [Function.update_of_ne heq, hlevel]
      simp only [List.mem_cons, heq, false_or]

theorem PrimeState.primeLayer_scanned {i : Nat} {section' : ChunkSection} (hsection : sections[i]? = some section')
    (localY : Fin 16) (hs : s.Scanned traits sections types minY height fun _ => i * 16 + localY + 1) :
    (s.primeLayer traits (types.map fun t => (t, t.mask)) minY i section'.states localY).Scanned traits sections types minY
      height fun _ => i * 16 + localY := by
  obtain ⟨hi, -⟩ := List.getElem?_eq_some_iff.mp hsection
  unfold primeLayer
  split
  · rename_i hzero
    exact hs.finished hzero fun _ => Nat.le_succ _
  · refine foldl_primeColumn_scanned (by omega) (fun column => ?_) (List.nodup_finRange 256) hs fun column => ?_
    · have hdiv : (i * 16 + localY) / 16 = i := by omega
      have hmod : (⟨(i * 16 + localY) % 16, by omega⟩ : Fin 16) = localY := by
        apply Fin.ext
        dsimp only
        omega
      unfold columnCell
      rw [hdiv, hsection]
      dsimp only
      rw [hmod]
    · rw [if_pos (List.mem_finRange column)]

theorem PrimeState.foldl_primeLayer_scanned {i : Nat} {section' : ChunkSection} (hsection : sections[i]? = some section') {n : Nat}
    (hn : n ≤ 16) (hs : s.Scanned traits sections types minY height fun _ => i * 16 + n) :
    (((List.finRange 16).take n).reverse.foldl
      (primeLayer traits (types.map fun t => (t, t.mask)) minY i section'.states) s).Scanned traits sections types minY height
      fun _ => i * 16 := by
  induction n generalizing s with
  | zero => exact hs
  | succ n ih =>
    have hlast : (List.finRange 16).take (n + 1) = (List.finRange 16).take n ++ [⟨n, by omega⟩] := by
      rw [List.take_succ_eq_append_getElem (by rw [List.length_finRange]; omega)]
      simp
    rw [hlast, List.reverse_append, List.reverse_cons, List.reverse_nil, List.nil_append, List.singleton_append, List.foldl_cons]
    exact ih (by omega) (primeLayer_scanned hsection ⟨n, by omega⟩ hs)

theorem PrimeState.primeSection_scanned {i : Nat} {section' : ChunkSection} (hsection : sections[i]? = some section')
    (hs : s.Scanned traits sections types minY height fun _ => i * 16 + 16) :
    (s.primeSection traits (types.map fun t => (t, t.mask)) minY (section', i)).Scanned traits sections types minY height
      fun _ => i * 16 := by
  unfold primeSection
  split
  · rename_i hair
    refine hs.lower fun column t _ => ?_
    constructor
    · intro hle
      by_contra hgt
      -- The cell below such a top would be air.
      have hpos : 0 < columnTop traits sections t (columnX column) (columnZ column) := by omega
      have hat := top_pred (p := columnOpaque traits sections t (columnX column) (columnZ column))
        (n := sections.length * 16) hpos
      have hdiv : (columnTop traits sections t (columnX column) (columnZ column) - 1) / 16 = i := by omega
      unfold columnTop at hdiv
      unfold columnOpaque columnCell at hat
      unfold columnOpaque columnCell at hdiv
      rw [hdiv, hsection] at hat
      dsimp only [PrimeState.isHomogeneousAir] at hair hat
      cases hstates : section'.states with
      | homogeneous state =>
        rw [hstates] at hair hat
        have hnot := HeightmapType.isOpaque_air (t := t) hair
        rw [show PalettedContainer.get (.homogeneous state) _ _ _ = state from rfl, hnot] at hat
        cases hat
      | heterogeneous data =>
        rw [hstates] at hair
        cases hair
      | building cube =>
        rw [hstates] at hair
        cases hair
    · omega
  · have hall := foldl_primeLayer_scanned hsection (Nat.le_refl 16) hs
    rwa [List.take_of_length_le (by simp)] at hall

theorem PrimeState.foldl_primeSection_scanned {n : Nat} (hn : n ≤ sections.length)
    (hs : s.Scanned traits sections types minY height fun _ => n * 16) :
    ((sections.take n).zipIdx.reverse.foldl (primeSection traits (types.map fun t => (t, t.mask)) minY) s).Scanned traits
      sections types minY height fun _ => 0 := by
  induction n generalizing s with
  | zero => simpa using hs
  | succ n ih =>
    have hlt : n < sections.length := by omega
    have hget : sections[n]? = some sections[n] := List.getElem?_eq_getElem hlt
    have hlast : (sections.take (n + 1)).zipIdx = (sections.take n).zipIdx ++ [(sections[n], n)] := by
      rw [List.take_succ_eq_append_getElem hlt, List.zipIdx_append]
      simp [Nat.min_eq_left (show n ≤ sections.length by omega)]
    rw [hlast, List.reverse_append, List.reverse_cons, List.reverse_nil, List.nil_append, List.singleton_append, List.foldl_cons]
    refine ih (by omega) (primeSection_scanned hget ?_)
    simpa [Nat.succ_mul] using hs

/-! ## The whole -/

theorem foldl_getOrInsert (maps : ChunkHeightmaps) (hmissing : ∀ t ∈ types, maps t = none ∨ maps t = some (.new t minY height)) :
    ∀ t ∈ types, ((types.map fun t => (t, t.mask)).foldl (fun maps e => ChunkHeightmaps.getOrInsert maps e.1 minY height) maps) t =
      some (.new t minY height) := by
  have hkeep : ∀ (rest : List HeightmapType) (maps : ChunkHeightmaps) (t : HeightmapType), maps t = some (.new t minY height) →
      ((rest.map fun t => (t, t.mask)).foldl (fun maps e => ChunkHeightmaps.getOrInsert maps e.1 minY height) maps) t =
        some (.new t minY height) := by
    intro rest
    induction rest with
    | nil => exact fun maps t ht => ht
    | cons t' rest ih =>
      intro maps t ht
      refine ih _ t ?_
      by_cases heq : t = t'
      · subst heq
        simp [ChunkHeightmaps.getOrInsert, ht]
      · simp [ChunkHeightmaps.getOrInsert, heq, ht]
  induction types generalizing maps with
  | nil => exact fun t ht => absurd ht List.not_mem_nil
  | cons t' rest ih =>
    rw [List.forall_mem_cons] at hmissing
    have hfirst : ChunkHeightmaps.getOrInsert maps t' minY height t' = some (.new t' minY height) := by
      obtain h | h := hmissing.1 <;> simp [ChunkHeightmaps.getOrInsert, h]
    intro t ht
    rw [List.map_cons, List.foldl_cons]
    rcases List.mem_cons.mp ht with rfl | ht
    · exact hkeep rest _ t hfirst
    · refine ih _ (fun u hu => ?_) t ht
      by_cases heq : u = t'
      · subst heq
        exact Or.inr hfirst
      · have := hmissing.2 u hu
        simpa [ChunkHeightmaps.getOrInsert, heq] using this

theorem primeFromSections_tells (traits : BlockStateId → HeightmapTraits) (sections : List ChunkSection) (minY height : Int)
    {t : HeightmapType} (ht : t ∈ HeightmapType.finalTypes) : ∃ m,
      ChunkHeightmaps.primeFromSections traits .empty HeightmapType.finalTypes minY height sections t = some m ∧
        m.Tells traits sections minY height t := by
  have hbase : (HeightmapType.finalTypes.map fun t => (t, t.mask)).foldl (fun mask e => mask ∪ e.2) (∅ : HeightmapMask) =
      HeightmapType.finalTypes.toFinset := by decide
  have hmaps : ∀ t' ∈ HeightmapType.finalTypes, (HeightmapType.finalTypes.map fun t => (t, t.mask)).foldl
      (fun maps e => ChunkHeightmaps.getOrInsert maps e.1 minY height) .empty t' = some (.new t' minY height) :=
    foldl_getOrInsert .empty fun _ _ => Or.inl rfl
  have hstart : PrimeState.Scanned traits sections HeightmapType.finalTypes minY height (fun _ => sections.length * 16)
      ⟨(HeightmapType.finalTypes.map fun t => (t, t.mask)).foldl
        (fun maps e => ChunkHeightmaps.getOrInsert maps e.1 minY height) .empty,
        Vector.replicate 256 HeightmapType.finalTypes.toFinset, 256⟩ := by
    constructor
    · intro column t'
      have := top_le (columnOpaque traits sections t' (columnX column) (columnZ column)) (sections.length * 16)
      simp only [Fin.getElem_fin, Vector.getElem_replicate, List.mem_toFinset]
      exact ⟨fun h => ⟨h, this⟩, fun h => h.1⟩
    · intro t' ht'
      refine ⟨_, hmaps t' ht', rfl, rfl, rfl, fun column => ?_⟩
      have hle : columnTop traits sections t' (columnX column) (columnZ column) ≤ sections.length * 16 := top_le _ _
      rw [if_neg (Nat.not_lt.mpr hle)]
      simp [Heightmap.new]
    · have hne : HeightmapType.finalTypes.toFinset ≠ ∅ := by decide
      simp [hne]
  have hend := PrimeState.foldl_primeSection_scanned (Nat.le_refl _) hstart
  rw [List.take_length] at hend
  obtain ⟨m, hm, hmapType, hminY, hheight, hdata⟩ := hend.maps t ht
  refine ⟨m, ?_, hmapType, hminY, hheight, fun column => ?_⟩
  · unfold ChunkHeightmaps.primeFromSections
    have hall : (HeightmapType.finalTypes.filter fun t => (ChunkHeightmaps.empty t).isNone) = HeightmapType.finalTypes := by decide
    rw [hall, if_neg (by decide), hbase]
    exact hm
  · rw [hdata column]
    split
    · rfl
    · rename_i hzero
      rw [Nat.not_lt, Nat.le_zero] at hzero
      rw [hzero]

end Scan

end Foton

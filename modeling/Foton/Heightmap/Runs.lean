import Foton.Heightmap.Prime

/-!
# Incremental heightmaps

An update after a cell has been written keeps a final heightmap at the tops of
its columns, so that it stays the one that priming would compute.
-/

namespace Foton

variable {traits : BlockStateId → HeightmapTraits} {counts : BlockStateId → BlockStateSectionCounts}

/-! ## One cell -/

/-- The sections differ in one cell at most. -/
structure CellWritten (sections sections' : List ChunkSection) (x z : Fin 16) (h : Nat) (state : BlockStateId) : Prop where
  length : sections'.length = sections.length
  written : columnCell sections' x z h = state
  others : ∀ x' z' h', (x', z', h') ≠ (x, z, h) → columnCell sections' x' z' h' = columnCell sections x' z' h'

section Written

variable {sections sections' : List ChunkSection} {x z : Fin 16} {h : Nat} {state : BlockStateId}

theorem CellWritten.columnTop_other (hw : CellWritten sections sections' x z h state) (t : HeightmapType) {x' z' : Fin 16}
    (hne : (x', z') ≠ (x, z)) : columnTop traits sections' t x' z' = columnTop traits sections t x' z' := by
  unfold columnTop
  rw [hw.length]
  refine top_congr fun k _ => ?_
  unfold columnOpaque
  rw [hw.others x' z' k]
  simp only [ne_eq, Prod.mk.injEq] at hne ⊢
  exact fun heq => hne ⟨heq.1, heq.2.1⟩

theorem CellWritten.columnOpaque_other (hw : CellWritten sections sections' x z h state) (t : HeightmapType) :
    ∀ k, k ≠ h → columnOpaque traits sections' t x z k = columnOpaque traits sections t x z k := by
  intro k hk
  unfold columnOpaque
  rw [hw.others x z k]
  simp only [ne_eq, Prod.mk.injEq, true_and]
  exact hk

theorem CellWritten.columnOpaque_written (hw : CellWritten sections sections' x z h state) (t : HeightmapType) :
    columnOpaque traits sections' t x z h = t.isOpaque traits state := by
  unfold columnOpaque
  rw [hw.written]

theorem column_ne {column : Fin 256} (h : column ≠ Heightmap.getIndex x z) : (columnX column, columnZ column) ≠ (x, z) := by
  intro heq
  simp only [Prod.mk.injEq] at heq
  rw [← heq.1, ← heq.2, getIndex_column] at h
  exact h rfl

variable {minY height : Int} {t : HeightmapType} {m : Heightmap}

namespace Heightmap

theorem Tells.getFirstAvailable (hm : m.Tells traits sections minY height t) (hfits : sections.length * 16 < 2 ^ 16) (x z : Fin 16) :
    m.getFirstAvailable x z = columnTop traits sections t x z + minY := by
  have hle : columnTop traits sections t x z ≤ sections.length * 16 := top_le _ _
  have hdata := hm.data (getIndex x z)
  rw [columnX_getIndex, columnZ_getIndex] at hdata
  unfold Heightmap.getFirstAvailable
  rw [hdata, hm.minY, UInt16.toNat_ofNat_of_lt' (by simp only [UInt16.size]; omega)]

/-- A map that is left as it is tells the new tops where the written column keeps its own. -/
theorem Tells.keep (hm : m.Tells traits sections minY height t) (hw : CellWritten sections sections' x z h state)
    (htop : columnTop traits sections' t x z = columnTop traits sections t x z) : m.Tells traits sections' minY height t where
  mapType := hm.mapType
  minY := hm.minY
  height := hm.height
  data column := by
    rw [hm.data column]
    by_cases heq : column = getIndex x z
    · subst heq
      rw [columnX_getIndex, columnZ_getIndex, htop]
    · rw [hw.columnTop_other t (column_ne heq)]

theorem Tells.setHeight (hm : m.Tells traits sections minY height t) (hw : CellWritten sections sections' x z h state) {y : Int}
    (hy : y = columnTop traits sections' t x z + minY) : (m.setHeight x z y).Tells traits sections' minY height t where
  mapType := hm.mapType
  minY := hm.minY
  height := hm.height
  data column := by
    have hset := data_setHeight m (getIndex x z) column y
    rw [columnX_getIndex, columnZ_getIndex] at hset
    rw [hset]
    by_cases heq : column = getIndex x z
    · subst heq
      have hcast : y - m.minY = (columnTop traits sections' t x z : Int) := by
        rw [hy, hm.minY]
        omega
      rw [if_pos rfl, columnX_getIndex, columnZ_getIndex, hcast, ofInt_natCast]
    · rw [if_neg heq, hm.data column, hw.columnTop_other t (column_ne heq)]

theorem scanDown_eq (p : Int → Bool) (minY : Int) (count : Nat) :
    scanDown p minY count =
      if top (fun k => p (minY + k)) count = 0 then none else some (minY + top (fun k => p (minY + k)) count - 1) := by
  induction count with
  | zero => rfl
  | succ count ih =>
    unfold scanDown
    rw [top_succ, ih]
    by_cases hp : p (minY + count) = true
    · rw [if_pos hp, if_pos hp, if_neg (Nat.succ_ne_zero count)]
      congr 1
      omega
    · rw [if_neg hp, if_neg hp]

theorem Tells.update (hm : m.Tells traits sections minY height t) (hfits : sections.length * 16 < 2 ^ 16)
    (hw : CellWritten sections sections' x z h state) (hh : h < sections.length * 16)
    {getBlock : Fin 16 → Int → Fin 16 → BlockStateId} (hget : ∀ k : Nat, getBlock x (minY + k) z = columnCell sections' x z k) :
    (m.update traits x (minY + h) z state getBlock).1.Tells traits sections' minY height t := by
  have hother : ∀ k, k ≠ h → columnOpaque traits sections' t x z k = columnOpaque traits sections t x z k :=
    hw.columnOpaque_other t
  have hwritten : columnOpaque traits sections' t x z h = t.isOpaque traits state := hw.columnOpaque_written t
  have hlength := hw.length
  have hfirst := hm.getFirstAvailable hfits x z
  unfold Heightmap.update
  rw [hfirst, hm.mapType]
  dsimp only
  split
  · -- Two below the top or lower.
    refine hm.keep hw ?_
    unfold columnTop
    rw [hlength]
    refine top_update_below hother ?_
    unfold columnTop at *
    omega
  · rename_i hnear
    split
    · rename_i hop
      have htop := top_update_true hother hh (hwritten.trans hop)
      rw [← hlength] at htop
      split
      · refine hm.setHeight hw ?_
        unfold columnTop at *
        rw [htop, hlength]
        omega
      · refine hm.keep hw ?_
        unfold columnTop at *
        rw [htop, hlength]
        omega
    · rename_i hop
      have hclear : columnOpaque traits sections' t x z h = false := hwritten.trans (by simpa using hop)
      split
      · rename_i hat
        have htop := top_update_top (n := sections.length * 16) hother hclear (by
          unfold columnTop at hat
          omega)
        have hcount : (minY + (h : Int) - m.minY).toNat = h := by
          rw [hm.minY]
          omega
        have hscan : (fun k : Nat => t.isOpaque traits (getBlock x (minY + k) z)) = columnOpaque traits sections' t x z := by
          funext k
          rw [hget]
          rfl
        rw [hcount, hm.minY, scanDown_eq, hscan]
        split
        · rename_i scanY heq
          split at heq
          · cases heq
          · obtain rfl := Option.some.inj heq
            refine hm.setHeight hw ?_
            unfold columnTop
            rw [hlength, htop]
            omega
        · rename_i heq
          split at heq
          · rename_i hzero
            refine hm.setHeight hw ?_
            unfold columnTop
            rw [hlength, htop, hzero]
            omega
          · cases heq
      · rename_i hat
        refine hm.keep hw ?_
        unfold columnTop
        rw [hlength]
        refine top_update_false hother hclear ?_
        unfold columnTop at hat
        omega

end Heightmap

theorem sectionReader_eq (sections : List ChunkSection) (minY : Int) (x z : Fin 16) (k : Nat) :
    HeightmapChunk.sectionReader sections minY x (minY + k) z = columnCell sections x z k := by
  have hoffset : minY + (k : Int) - minY = k := by omega
  have hdiv : ((k : Int) / 16).toNat = k / 16 := by omega
  have hmod : HeightmapChunk.localY (k : Int) = ⟨k % 16, by omega⟩ := by
    apply Fin.ext
    simp only [HeightmapChunk.localY]
    omega
  unfold HeightmapChunk.sectionReader columnCell
  rw [hoffset, hdiv]
  cases sections[k / 16]? with
  | none => rfl
  | some section' => exact congrArg (fun y => section'.states.get x y z) hmod

theorem get_of_cells_set {c c' : BlockPalette} {y : Fin 16} (hcells : c'.cells = c.cells.set (Cube.index x y z) state)
    (x' y' z' : Fin 16) : c'.get x' y' z' = if x' = x ∧ y' = y ∧ z' = z then state else c.get x' y' z' := by
  have hget := c'.cells_get x' y' z'
  rw [hcells] at hget
  split
  · rename_i hsame
    obtain ⟨rfl, rfl, rfl⟩ := hsame
    rw [List.getElem?_set_self (by rw [c.cells_length]; exact Cube.index_lt _ _ _)] at hget
    exact (Option.some.inj hget).symm
  · rename_i hother
    rw [List.getElem?_set_ne, c.cells_get] at hget
    · exact (Option.some.inj hget).symm
    · intro heq
      obtain ⟨rfl, rfl, rfl⟩ := Cube.index_inj heq
      exact hother ⟨rfl, rfl, rfl⟩

theorem cellWritten_set {i : Nat} {section' changed : ChunkSection} {y : Fin 16} (hsection : sections[i]? = some section')
    (hcells : changed.states.cells = section'.states.cells.set (Cube.index x y z) state) :
    CellWritten sections (sections.set i changed) x z (i * 16 + y) state := by
  obtain ⟨hi, -⟩ := List.getElem?_eq_some_iff.mp hsection
  have hdiv : (i * 16 + (y : Nat)) / 16 = i := by omega
  have hmod : (⟨(i * 16 + y) % 16, by omega⟩ : Fin 16) = y := by
    apply Fin.ext
    dsimp only
    omega
  refine ⟨List.length_set .., ?_, fun x' z' h' hne => ?_⟩
  · unfold columnCell
    rw [hdiv, List.getElem?_set_self hi]
    dsimp only
    rw [hmod, get_of_cells_set hcells, if_pos ⟨rfl, rfl, rfl⟩]
  · unfold columnCell
    by_cases hsame : i = h' / 16
    · subst hsame
      rw [List.getElem?_set_self hi, hsection]
      dsimp only
      rw [get_of_cells_set hcells, if_neg]
      rintro ⟨rfl, hy, rfl⟩
      have hval := congrArg Fin.val hy
      dsimp only at hval
      have hh : h' = h' / 16 * 16 + y := by omega
      exact hne (by rw [← hh])
    · rw [List.getElem?_set_ne hsame]

end Written

/-! ## Runs -/

namespace ChunkHeightmaps

theorem updateFinal_eq {maps : ChunkHeightmaps} {localX : Fin 16} {y : Int} {localZ : Fin 16} {state : BlockStateId}
    {getBlock : Fin 16 → Int → Fin 16 → BlockStateId} (hsome : ∀ t ∈ HeightmapType.finalTypes, (maps t).isSome) :
    maps.updateFinal traits localX y localZ state getBlock = some fun t =>
      if t ∈ HeightmapType.finalTypes then (maps t).map fun m => (m.update traits localX y localZ state getBlock).1 else maps t := by
  have hnodup : HeightmapType.finalTypes.Nodup := by decide
  unfold updateFinal
  generalize HeightmapType.finalTypes = types at hsome hnodup
  induction types generalizing maps with
  | nil => simp
  | cons t' rest ih =>
    obtain ⟨hnot, hrest⟩ := List.nodup_cons.mp hnodup
    rw [List.forall_mem_cons] at hsome
    obtain ⟨m, hm⟩ := Option.isSome_iff_exists.mp hsome.1
    have hne : ∀ t ∈ rest, t ≠ t' := fun t ht heq => hnot (heq ▸ ht)
    rw [List.foldlM_cons, hm]
    refine (ih ?_ hrest).trans ?_
    · intro t ht
      rw [Function.update_of_ne (hne t ht)]
      exact hsome.2 t ht
    · congr 1
      funext t
      by_cases heq : t = t'
      · subst heq
        simp [hnot, hm]
      · simp [heq]

end ChunkHeightmaps

structure BlockSet where
  localX : Fin 16
  y : Int
  localZ : Fin 16
  state : BlockStateId

namespace HeightmapChunk

variable {c : HeightmapChunk}

variable (traits counts) in
def setBlockStates (c : HeightmapChunk) (sets : List BlockSet) : Option HeightmapChunk :=
  sets.foldlM (fun c s => c.setBlockState traits counts s.localX s.y s.localZ s.state) c

variable (traits) in
/-- Each final map is the one that priming computes from the sections. -/
def Primed (c : HeightmapChunk) : Prop :=
  ∀ t ∈ HeightmapType.finalTypes, c.heightmaps t =
    ChunkHeightmaps.primeFromSections traits .empty HeightmapType.finalTypes c.stack.minY c.stack.height c.stack.sections t

variable (traits) in
/-- One above the highest cell of a column that counts for a type, and the bottom where there is none. -/
structure OneAboveHighest (c : HeightmapChunk) (t : HeightmapType) (x z : Fin 16) (first : Int) : Prop where
  above : ∀ h < c.stack.sections.length * 16, columnOpaque traits c.stack.sections t x z h = true → c.stack.minY + h < first
  attained : first = c.stack.minY ∨ ∃ h < c.stack.sections.length * 16,
    columnOpaque traits c.stack.sections t x z h = true ∧ first = c.stack.minY + h + 1

theorem primed_iff : c.Primed traits ↔ ∀ t ∈ HeightmapType.finalTypes, ∃ m, c.heightmaps t = some m ∧
    m.Tells traits c.stack.sections c.stack.minY c.stack.height t := by
  refine forall₂_congr fun t ht => ?_
  obtain ⟨m, hm, htells⟩ := primeFromSections_tells traits c.stack.sections c.stack.minY c.stack.height ht
  rw [hm]
  constructor
  · exact fun h => ⟨m, h, htells⟩
  · rintro ⟨m', hm', htells'⟩
    rw [hm', htells'.unique htells]

theorem Primed.highest (h : c.Primed traits) : ∀ t ∈ HeightmapType.finalTypes, ∃ m, c.heightmaps t = some m ∧
    ∀ x z, c.OneAboveHighest traits t x z (m.getFirstAvailable x z) := by
  intro t ht
  obtain ⟨m, hm, htells⟩ := primed_iff.mp h t ht
  refine ⟨m, hm, fun x z => ?_⟩
  have hle : columnTop traits c.stack.sections t x z ≤ c.stack.sections.length * 16 := top_le _ _
  rw [htells.getFirstAvailable c.stack.heightFits]
  constructor
  · intro k hk hop
    have : k < columnTop traits c.stack.sections t x z := lt_top hk hop
    omega
  · rcases Nat.eq_zero_or_pos (columnTop traits c.stack.sections t x z) with hzero | hpos
    · left
      omega
    · exact Or.inr ⟨columnTop traits c.stack.sections t x z - 1, by omega, top_pred hpos, by omega⟩

/-- Sections whose counters are exact, under maps that priming would compute. -/
structure Sound (traits : BlockStateId → HeightmapTraits) (counts : BlockStateId → BlockStateSectionCounts) (c : HeightmapChunk) :
    Prop where
  sections : ∀ section' ∈ c.stack.sections, section'.Exact counts
  primed : c.Primed traits

theorem Sound.setBlockState (hc : c.Sound traits counts) (s : BlockSet) :
    ∃ c', c.setBlockState traits counts s.localX s.y s.localZ s.state = some c' ∧ c'.Sound traits counts ∧
      c'.stack.minSection = c.stack.minSection ∧ c'.stack.sections.length = c.stack.sections.length := by
  unfold HeightmapChunk.setBlockState
  split
  · exact ⟨c, rfl, hc, rfl, rfl⟩
  · rename_i hinside
    rw [not_or, not_lt, ge_iff_le, not_le] at hinside
    dsimp only
    split
    · exact ⟨c, rfl, hc, rfl, rfl⟩
    · rename_i section' hsection
      split
      · exact ⟨c, rfl, hc, rfl, rfl⟩
      · have hmem := List.mem_of_getElem? hsection
        obtain ⟨changed, hset, hexact, hcells⟩ := ChunkSection.setBlockState_ok (hc.sections _ hmem) s.localX (localY s.y) s.localZ s.state
        have hmaps := primed_iff.mp hc.primed
        have hw := cellWritten_set hsection hcells
        -- The place above the bottom of the cell that is written.
        have hh : c.stack.minY + (((s.y - c.stack.minY) / 16).toNat * 16 + (localY s.y : Nat) : Nat) = s.y := by
          simp only [localY, ColumnStack.minY] at hinside ⊢
          omega
        have hlt : ((s.y - c.stack.minY) / 16).toNat * 16 + (localY s.y : Nat) < c.stack.sections.length * 16 := by
          have := hinside.2
          unfold ColumnStack.height at this
          omega
        rw [hset, Option.bind_eq_bind, Option.bind_some, ChunkHeightmaps.updateFinal_eq fun t ht => ?_]
        · refine ⟨_, rfl, ⟨fun other hmem => ?_, primed_iff.mpr fun t ht => ?_⟩, rfl, List.length_set ..⟩
          · rcases List.mem_or_eq_of_mem_set hmem with hmem | rfl
            · exact hc.sections _ hmem
            · exact hexact
          · obtain ⟨m, hm, htells⟩ := hmaps t ht
            dsimp only
            rw [if_pos ht, hm]
            refine ⟨_, rfl, ?_⟩
            have hupdate := htells.update c.stack.heightFits hw hlt fun k => sectionReader_eq _ c.stack.minY s.localX s.localZ k
            rw [hh] at hupdate
            simp only [ColumnStack.minY, ColumnStack.height, List.length_set] at hupdate ⊢
            exact hupdate
        · obtain ⟨m, hm, -⟩ := hmaps t ht
          rw [hm]
          rfl

theorem Sound.setBlockStates (hc : c.Sound traits counts) (sets : List BlockSet) :
    ∃ c', c.setBlockStates traits counts sets = some c' ∧ c'.Sound traits counts ∧
      c'.stack.minSection = c.stack.minSection ∧ c'.stack.sections.length = c.stack.sections.length := by
  induction sets generalizing c with
  | nil => exact ⟨c, rfl, hc, rfl, rfl⟩
  | cons s sets ih =>
    obtain ⟨c₁, hset, hsound, hmin, hlength⟩ := hc.setBlockState s
    obtain ⟨c', hrun, hsound', hmin', hlength'⟩ := ih hsound
    refine ⟨c', ?_, hsound', hmin'.trans hmin, hlength'.trans hlength⟩
    unfold HeightmapChunk.setBlockStates
    rw [List.foldlM_cons, hset]
    exact hrun

/-- An air section with its maps primed. -/
def airChunk (traits : BlockStateId → HeightmapTraits) (counts : BlockStateId → BlockStateSectionCounts) : HeightmapChunk :=
  let states : BlockPalette := .homogeneous ⟨0⟩
  let sections : List ChunkSection := [⟨states, .homogeneous 0, .ofCells counts states.cells⟩]
  ⟨⟨-4, sections, Nat.lt_of_sub_eq_succ rfl⟩, .primeFromSections traits .empty HeightmapType.finalTypes (-64) 16 sections⟩

end HeightmapChunk

end Foton

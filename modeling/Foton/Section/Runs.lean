import Foton.Section.Counts

/-!
# Section counters along a run

The palette and the counters describe the cells after every sequence of writes,
and no counter leaves its range.
-/

namespace Foton

inductive SectionOp where
  | setBlockState (x y z : Fin 16) (newState : BlockStateId)
  | setBlockStateForGeneration (x y z : Fin 16) (newState : BlockStateId)
  | writeBlocks (blocks : List (Fin 16 × Fin 16 × Fin 16 × BlockStateId))
  | recalculateCounts

namespace ChunkSection

variable {traits : BlockStateId → BlockStateSectionCounts} {s : ChunkSection}

def exec (traits : BlockStateId → BlockStateSectionCounts) (s : ChunkSection) : SectionOp → Option ChunkSection
  | .setBlockState x y z newState => (s.setBlockState traits x y z newState).map Prod.snd
  | .setBlockStateForGeneration x y z newState => (s.setBlockStateForGeneration x y z newState).map Prod.snd
  | .writeBlocks blocks => s.writeBlocks blocks
  | .recalculateCounts => s.recalculateCounts traits

/-- Outside building mode the counters are those of the cells. -/
structure Exact (traits : BlockStateId → BlockStateSectionCounts) (s : ChunkSection) : Prop where
  states : s.states.Exact
  counters : ¬ s.states.IsBuilding → s.counters = .ofCells traits s.states.cells

theorem volume_limit : 0 < Cube.volume 16 ∧ Cube.volume 16 + 1 < countLimit := by decide

theorem cells_length_lt (c : BlockPalette) : c.cells.length < countLimit := by
  rw [c.cells_length]
  decide

theorem countsFromPalette_ok {states : BlockPalette} (h : states.Exact) (hbuilding : ¬ states.IsBuilding) :
    countsFromPalette traits states = some (.ofCells traits states.cells) := by
  have hfold : ∀ palette, Tallies palette (fun v => states.cells.count v) →
      palette.foldlM (fun c e => c.accumulateCounterTraits (traits e.1) e.2) SectionCounters.zero =
        some (.ofCells traits states.cells) := by
    intro palette htallies
    rw [← SectionCounters.accumulated_eq htallies]
    refine SectionCounters.foldlM_ok ?_
    rw [SectionCounters.accumulated_eq htallies]
    exact SectionCounters.ofCells_bounded (cells_length_lt states)
  cases states with
  | homogeneous state =>
    have htallies : Tallies [(state, blocksPerSection)] fun v =>
        (PalettedContainer.homogeneous state : BlockPalette).cells.count v := by
      have hall : (PalettedContainer.homogeneous state : BlockPalette).cells = List.replicate blocksPerSection state :=
        Cube.cells_filled state
      rw [hall]
      refine Tallies.cons_iff.mpr ⟨by simp, by decide, Tallies.nil_iff.mpr fun v => ?_⟩
      by_cases hv : v = state
      · rw [hv, Function.update_self]
      · rw [Function.update_of_ne hv, List.count_replicate, if_neg]
        simpa using fun h => hv h.symm
    have hone := hfold _ htallies
    rw [List.foldlM_cons, Option.bind_eq_bind] at hone
    show SectionCounters.zero.accumulateCounterTraits (traits state) blocksPerSection = _
    cases hc : SectionCounters.zero.accumulateCounterTraits (traits state) blocksPerSection with
    | none => rw [hc] at hone; cases hone
    | some c => rw [hc] at hone; exact hone
  | heterogeneous data => exact hfold data.palette h.tallies
  | building cube => exact absurd trivial hbuilding

theorem recalculateCounts_ok (traits : BlockStateId → BlockStateSectionCounts) (h : s.states.Exact) :
    ∃ s', s.recalculateCounts traits = some s' ∧ s'.Exact traits ∧ ¬ s'.states.IsBuilding ∧
      s'.states.cells = s.states.cells := by
  obtain ⟨states, hstates, hexact, hbuilding, hcells⟩ := PalettedContainer.finalizeBuilding_ok h volume_limit.1
    (Nat.lt_of_succ_lt volume_limit.2)
  unfold recalculateCounts
  rw [hstates, Option.bind_eq_bind, Option.bind_some, countsFromPalette_ok hexact hbuilding]
  exact ⟨_, rfl, ⟨hexact, fun _ => rfl⟩, hbuilding, hcells⟩

theorem ensureCounterReadyForDelta_ok (h : s.Exact traits) : ∃ s', s.ensureCounterReadyForDelta traits = some s' ∧
    s'.Exact traits ∧ ¬ s'.states.IsBuilding ∧ s'.states.cells = s.states.cells := by
  unfold ensureCounterReadyForDelta
  cases hs : s.states with
  | building cube =>
    dsimp only
    rw [← hs]
    exact recalculateCounts_ok traits h.states
  | homogeneous value => exact ⟨s, rfl, h, by rw [hs]; exact not_false, by rw [hs]⟩
  | heterogeneous data => exact ⟨s, rfl, h, by rw [hs]; exact not_false, by rw [hs]⟩

theorem setBlockState_ok (h : s.Exact traits) (x y z : Fin 16) (newState : BlockStateId) :
    ∃ s', s.setBlockState traits x y z newState = some (s.states.get x y z, s') ∧ s'.Exact traits ∧
      s'.states.cells = s.states.cells.set (Cube.index x y z) newState := by
  obtain ⟨s₁, hready, hexact, hbuilding, hcells⟩ := ensureCounterReadyForDelta_ok h
  obtain ⟨states, hset, hstates, hsame, hcells'⟩ := PalettedContainer.set_ok hexact.states volume_limit.2 x y z newState
  have hget : s₁.states.get x y z = s.states.get x y z := PalettedContainer.get_of_cells hcells
  have hcell := s₁.states.cells_get x y z
  unfold setBlockState
  simp only [hready, hset, Option.bind_eq_bind, Option.bind_some]
  rw [hget] at hcell ⊢
  rw [hcells] at hcells'
  by_cases heq : s.states.get x y z = newState
  · rw [if_pos heq]
    refine ⟨_, rfl, ⟨hstates, fun _ => ?_⟩, hcells'⟩
    have hunchanged : states.cells = s₁.states.cells := by
      rw [hcells', ← hcells]
      rw [heq] at hcell
      refine List.ext_getElem? fun i => ?_
      by_cases hi : i = Cube.index x y z
      · subst hi
        rw [List.getElem?_set_self (by rw [PalettedContainer.cells_length]; exact Cube.index_lt x y z), hcell]
      · rw [List.getElem?_set_ne (Ne.symm hi)]
    exact (hexact.counters hbuilding).trans (by rw [hunchanged])
  · rw [if_neg heq, hexact.counters hbuilding, SectionCounters.applyCountChange_ok hcell (cells_length_lt _)]
    refine ⟨_, rfl, ⟨hstates, fun _ => ?_⟩, hcells'⟩
    dsimp only
    rw [hcells', hcells]

theorem setBlockStateForGeneration_ok (traits : BlockStateId → BlockStateSectionCounts) (s : ChunkSection) (x y z : Fin 16) (newState : BlockStateId) :
    ∃ s', s.setBlockStateForGeneration x y z newState = some (s.states.get x y z, s') ∧ s'.Exact traits := by
  have hbuilding : s.states.enterBuildingMode.IsBuilding := by cases s.states <;> trivial
  obtain ⟨states, hset, hstates, hsame, -⟩ := PalettedContainer.set_ok (PalettedContainer.exact_of_building hbuilding)
    volume_limit.2 x y z newState
  unfold setBlockStateForGeneration
  rw [hset, PalettedContainer.get_of_cells (PalettedContainer.cells_enterBuildingMode _)]
  exact ⟨_, rfl, hstates, fun hnot => absurd (hsame.mpr hbuilding) hnot⟩

theorem writeBlocks_ok (traits : BlockStateId → BlockStateSectionCounts) (s : ChunkSection)
    (blocks : List (Fin 16 × Fin 16 × Fin 16 × BlockStateId)) : ∃ s', s.writeBlocks blocks = some s' ∧ s'.Exact traits := by
  have hwrites : ∀ (states : BlockPalette), states.IsBuilding → ∃ states' : BlockPalette,
      blocks.foldlM (fun states b => states.writeBuilding b.1 b.2.1 b.2.2.1 b.2.2.2) states = some states' ∧
        states'.IsBuilding := by
    induction blocks with
    | nil => exact fun states hstates => ⟨states, rfl, hstates⟩
    | cons b blocks ih =>
      intro states hstates
      cases states with
      | building cube =>
        rw [List.foldlM_cons]
        exact ih _ trivial
      | homogeneous value => exact absurd hstates not_false
      | heterogeneous data => exact absurd hstates not_false
  obtain ⟨states, hfold, hbuilding⟩ := hwrites s.states.enterBuildingMode (by cases s.states <;> trivial)
  unfold writeBlocks
  rw [hfold]
  exact ⟨_, rfl, PalettedContainer.exact_of_building hbuilding, fun hnot => absurd hbuilding hnot⟩

theorem exec_ok (h : s.Exact traits) (op : SectionOp) : ∃ s', s.exec traits op = some s' ∧ s'.Exact traits := by
  cases op with
  | setBlockState x y z newState =>
    obtain ⟨s', hs', hexact, -⟩ := setBlockState_ok h x y z newState
    exact ⟨s', congrArg (Option.map Prod.snd) hs', hexact⟩
  | setBlockStateForGeneration x y z newState =>
    obtain ⟨s', hs', hexact⟩ := setBlockStateForGeneration_ok traits s x y z newState
    exact ⟨s', congrArg (Option.map Prod.snd) hs', hexact⟩
  | writeBlocks blocks => exact writeBlocks_ok traits s blocks
  | recalculateCounts =>
    obtain ⟨s', hs', hexact, -⟩ := recalculateCounts_ok traits h.states
    exact ⟨s', hs', hexact⟩

theorem run_ok (h : s.Exact traits) (ops : List SectionOp) :
    ∃ s', ops.foldlM (exec traits) s = some s' ∧ s'.Exact traits := by
  induction ops generalizing s with
  | nil => exact ⟨s, rfl, h⟩
  | cons op ops ih =>
    obtain ⟨s', hs', hexact⟩ := exec_ok h op
    rw [List.foldlM_cons, hs']
    exact ih hexact

/-- **The counters and the palette** describe the cells after every sequence of writes, and no update
of a counter overflows or underflows. -/
theorem counters_exact {s : ChunkSection} (hreachable : s.states.Reachable)
    (traits : BlockStateId → BlockStateSectionCounts) (ops : List SectionOp) :
    ∃ s₀ s', s.recalculateCounts traits = some s₀ ∧ ops.foldlM (exec traits) s₀ = some s' ∧
      (¬ s'.states.IsBuilding → s'.counters = .ofCells traits s'.states.cells ∧
        ∀ data, s'.states = .heterogeneous data → data.Exact) := by
  obtain ⟨s₀, hs₀, hexact₀, -⟩ := recalculateCounts_ok traits (hreachable.exact volume_limit.1 volume_limit.2)
  obtain ⟨s', hs', hexact⟩ := run_ok hexact₀ ops
  refine ⟨s₀, s', hs₀, hs', fun hbuilding => ⟨hexact.counters hbuilding, fun data hdata => ?_⟩⟩
  have hstates := hexact.states
  rw [hdata] at hstates
  exact hstates

/-- A block in an empty section. -/
theorem empty_section_counters :
    let traits : BlockStateId → BlockStateSectionCounts := fun state => ⟨state.id == 0, false, false, false⟩
    let empty : ChunkSection := ⟨.homogeneous ⟨0⟩, .homogeneous 0, .zero⟩
    ∃ s₀ s', empty.recalculateCounts traits = some s₀ ∧
      [SectionOp.setBlockState 0 0 0 ⟨1⟩].foldlM (exec traits) s₀ = some s' ∧
      (¬ s'.states.IsBuilding → s'.counters = .ofCells traits s'.states.cells ∧
        ∀ data, s'.states = .heterogeneous data → data.Exact) :=
  counters_exact (s := ⟨.homogeneous ⟨0⟩, .homogeneous 0, .zero⟩) (.homogeneous _) _ _

end ChunkSection

end Foton

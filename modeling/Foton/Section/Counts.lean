import Foton.Palette.Container
import Foton.Palette.Decode
import Mathlib.Algebra.BigOperators.Group.List.Lemmas

/-!
# Section counters

A section keeps four `u16` counters beside its block states. They are recounted
from the palette, or changed with a block. An update that leaves the range of
`u16` gives `none`.
-/

namespace Foton

structure BlockStateId where
  id : UInt16
  deriving DecidableEq

abbrev BlockPalette : Type := PalettedContainer BlockStateId 16

abbrev BiomePalette : Type := PalettedContainer UInt16 4

/-- The counter traits of a block state. -/
structure BlockStateSectionCounts where
  isAir : Bool
  hasFluid : Bool
  randomlyTickingBlock : Bool
  randomlyTickingFluid : Bool

def blocksPerSection : Nat := 4096

structure SectionCounters where
  nonEmptyBlockCount : Nat
  fluidCount : Nat
  tickingBlockCount : Nat
  tickingFluidCount : Nat
  deriving DecidableEq

structure ChunkSection where
  states : BlockPalette
  biomes : BiomePalette
  counters : SectionCounters

/-- `blockCount` more when the trait is present. -/
def accumulateTrait (trait : Bool) (blockCount count : Nat) : Option Nat :=
  if trait then if count + blockCount < countLimit then some (count + blockCount) else none else some count

/-- One less when the trait is lost, one more when it is gained. -/
def changeTrait (old new : Bool) (count : Nat) : Option Nat :=
  if old && !new then if 0 < count then some (count - 1) else none
  else if !old && new then if count + 1 < countLimit then some (count + 1) else none
  else some count

namespace SectionCounters

def zero : SectionCounters := ⟨0, 0, 0, 0⟩

def accumulateCounterTraits (c : SectionCounters) (counts : BlockStateSectionCounts) (blockCount : Nat) :
    Option SectionCounters := do
  let nonEmpty ← accumulateTrait (!counts.isAir) blockCount c.nonEmptyBlockCount
  let fluid ← accumulateTrait counts.hasFluid blockCount c.fluidCount
  let tickingBlocks ← accumulateTrait counts.randomlyTickingBlock blockCount c.tickingBlockCount
  let tickingFluids ← accumulateTrait counts.randomlyTickingFluid blockCount c.tickingFluidCount
  some ⟨nonEmpty, fluid, tickingBlocks, tickingFluids⟩

def applyCountChange (c : SectionCounters) (oldCounts newCounts : BlockStateSectionCounts) : Option SectionCounters := do
  let nonEmpty ← changeTrait (!oldCounts.isAir) (!newCounts.isAir) c.nonEmptyBlockCount
  let fluid ← changeTrait oldCounts.hasFluid newCounts.hasFluid c.fluidCount
  let tickingBlocks ← changeTrait oldCounts.randomlyTickingBlock newCounts.randomlyTickingBlock c.tickingBlockCount
  let tickingFluids ← changeTrait oldCounts.randomlyTickingFluid newCounts.randomlyTickingFluid c.tickingFluidCount
  some ⟨nonEmpty, fluid, tickingBlocks, tickingFluids⟩

/-- The counters of `cells`. -/
def ofCells (traits : BlockStateId → BlockStateSectionCounts) (cells : List BlockStateId) : SectionCounters where
  nonEmptyBlockCount := cells.countP fun state => !(traits state).isAir
  fluidCount := cells.countP fun state => (traits state).hasFluid
  tickingBlockCount := cells.countP fun state => (traits state).randomlyTickingBlock
  tickingFluidCount := cells.countP fun state => (traits state).randomlyTickingFluid

end SectionCounters

namespace ChunkSection

section
variable (traits : BlockStateId → BlockStateSectionCounts)

/-- The loop of `recalculate_counts_from_palette`. -/
def countsFromPalette : BlockPalette → Option SectionCounters
  | .homogeneous state => SectionCounters.zero.accumulateCounterTraits (traits state) blocksPerSection
  | .heterogeneous data =>
    data.palette.foldlM (fun c e => c.accumulateCounterTraits (traits e.1) e.2) SectionCounters.zero
  | .building _ => none

def recalculateCounts (s : ChunkSection) : Option ChunkSection := do
  let states ← s.states.finalizeBuilding
  let counters ← countsFromPalette traits states
  some { s with states := states, counters := counters }

def ensureCounterReadyForDelta (s : ChunkSection) : Option ChunkSection :=
  match s.states with
  | .building _ => s.recalculateCounts traits
  | _ => some s

def setBlockState (s : ChunkSection) (x y z : Fin 16) (newState : BlockStateId) :
    Option (BlockStateId × ChunkSection) := do
  let s ← s.ensureCounterReadyForDelta traits
  let (oldState, states) ← s.states.set x y z newState
  if oldState = newState then some (oldState, { s with states := states })
  else
    let counters ← s.counters.applyCountChange (traits oldState) (traits newState)
    some (oldState, { s with states := states, counters := counters })

end

def setBlockStateForGeneration (s : ChunkSection) (x y z : Fin 16) (newState : BlockStateId) :
    Option (BlockStateId × ChunkSection) := do
  let (oldState, states) ← s.states.enterBuildingMode.set x y z newState
  some (oldState, { s with states := states })

/-- The writes of `write_block_batch` and `write_column_blocks` that fall into the section. -/
def writeBlocks (s : ChunkSection) (blocks : List (Fin 16 × Fin 16 × Fin 16 × BlockStateId)) : Option ChunkSection := do
  let states ← blocks.foldlM (fun states b => states.writeBuilding b.1 b.2.1 b.2.2.1 b.2.2.2) s.states.enterBuildingMode
  some { s with states := states }

end ChunkSection

/-! ## Counting -/

theorem accumulateTrait_ok {trait : Bool} {blockCount count : Nat} (h : trait = true → count + blockCount < countLimit) :
    accumulateTrait trait blockCount count = some (count + if trait then blockCount else 0) := by
  unfold accumulateTrait
  cases trait with
  | false => rfl
  | true => simp [h rfl]

theorem changeTrait_ok {cells : List BlockStateId} {p : BlockStateId → Bool} {i : Nat} {old new : BlockStateId}
    (h : cells[i]? = some old) (hlength : cells.length < countLimit) :
    changeTrait (p old) (p new) (cells.countP p) = some ((cells.set i new).countP p) := by
  obtain ⟨hi, hold⟩ := List.getElem?_eq_some_iff.mp h
  have hle : (cells.set i new).countP p ≤ (cells.set i new).length := List.countP_le_length
  have hpos : p old = true → 0 < cells.countP p := fun hp =>
    List.countP_pos_iff.mpr ⟨old, hold ▸ List.getElem_mem hi, hp⟩
  rw [List.length_set] at hle
  unfold changeTrait
  rw [List.countP_set hi, hold] at hle ⊢
  cases hp : p old <;> cases hq : p new <;> simp only [hp, hq, Bool.false_eq_true, if_true, if_false] at hle ⊢
  · simp
  · have hlt : cells.countP p + 1 < countLimit := by omega
    simp [hlt]
  · have hlt : 0 < cells.countP p := hpos hp
    simp [hlt]
  · have hsame : cells.countP p - 1 + 1 = cells.countP p := Nat.sub_add_cancel (hpos hp)
    simp [hsame]

namespace SectionCounters

variable {traits : BlockStateId → BlockStateSectionCounts} {cells : List BlockStateId}

theorem applyCountChange_ok {i : Nat} {old new : BlockStateId} (h : cells[i]? = some old)
    (hlength : cells.length < countLimit) :
    (ofCells traits cells).applyCountChange (traits old) (traits new) = some (ofCells traits (cells.set i new)) := by
  unfold applyCountChange ofCells
  dsimp only
  rw [changeTrait_ok (p := fun state => !(traits state).isAir) h hlength,
    changeTrait_ok (p := fun state => (traits state).hasFluid) h hlength,
    changeTrait_ok (p := fun state => (traits state).randomlyTickingBlock) h hlength,
    changeTrait_ok (p := fun state => (traits state).randomlyTickingFluid) h hlength]
  rfl

/-- The part of a palette that has a trait. -/
def traitSum (p : BlockStateId → Bool) (palette : List (BlockStateId × Nat)) : Nat :=
  ((palette.filter fun e => p e.1).map Prod.snd).sum

theorem traitSum_cons (p : BlockStateId → Bool) (e : BlockStateId × Nat) (palette : List (BlockStateId × Nat)) :
    traitSum p (e :: palette) = (if p e.1 then e.2 else 0) + traitSum p palette := by
  unfold traitSum
  rw [List.filter_cons]
  split <;> simp

/-- The counters after a whole palette. -/
def accumulated (traits : BlockStateId → BlockStateSectionCounts) (c : SectionCounters)
    (palette : List (BlockStateId × Nat)) : SectionCounters where
  nonEmptyBlockCount := c.nonEmptyBlockCount + traitSum (fun state => !(traits state).isAir) palette
  fluidCount := c.fluidCount + traitSum (fun state => (traits state).hasFluid) palette
  tickingBlockCount := c.tickingBlockCount + traitSum (fun state => (traits state).randomlyTickingBlock) palette
  tickingFluidCount := c.tickingFluidCount + traitSum (fun state => (traits state).randomlyTickingFluid) palette

structure Bounded (c : SectionCounters) : Prop where
  nonEmpty : c.nonEmptyBlockCount < countLimit
  fluid : c.fluidCount < countLimit
  tickingBlock : c.tickingBlockCount < countLimit
  tickingFluid : c.tickingFluidCount < countLimit

theorem accumulate_ok {c : SectionCounters} {e : BlockStateId × Nat} {palette : List (BlockStateId × Nat)}
    (h : (accumulated traits c (e :: palette)).Bounded) : ∃ c', c.accumulateCounterTraits (traits e.1) e.2 = some c' ∧
      accumulated traits c' palette = accumulated traits c (e :: palette) := by
  obtain ⟨h₁, h₂, h₃, h₄⟩ := h
  unfold accumulated at h₁ h₂ h₃ h₄
  simp only [traitSum_cons] at h₁ h₂ h₃ h₄
  unfold accumulateCounterTraits
  rw [accumulateTrait_ok fun ht => by rw [ht, if_pos rfl] at h₁; omega,
    accumulateTrait_ok fun ht => by rw [ht, if_pos rfl] at h₂; omega,
    accumulateTrait_ok fun ht => by rw [ht, if_pos rfl] at h₃; omega,
    accumulateTrait_ok fun ht => by rw [ht, if_pos rfl] at h₄; omega]
  refine ⟨_, rfl, ?_⟩
  unfold accumulated
  simp only [traitSum_cons, Nat.add_assoc]

theorem foldlM_ok {c : SectionCounters} {palette : List (BlockStateId × Nat)}
    (h : (accumulated traits c palette).Bounded) :
    palette.foldlM (fun c e => c.accumulateCounterTraits (traits e.1) e.2) c = some (accumulated traits c palette) := by
  induction palette generalizing c with
  | nil => rfl
  | cons e palette ih =>
    obtain ⟨c', hc', hsame⟩ := accumulate_ok h
    rw [List.foldlM_cons, hc', Option.bind_eq_bind, Option.bind_some, ih (hsame ▸ h), hsame]

theorem ofCells_bounded (hlength : cells.length < countLimit) : (ofCells traits cells).Bounded :=
  ⟨lt_of_le_of_lt List.countP_le_length hlength, lt_of_le_of_lt List.countP_le_length hlength,
    lt_of_le_of_lt List.countP_le_length hlength, lt_of_le_of_lt List.countP_le_length hlength⟩

theorem traitSum_eq {palette : List (BlockStateId × Nat)} (h : Tallies palette fun v => cells.count v)
    (p : BlockStateId → Bool) : traitSum p palette = cells.countP p := h.sum_filter

theorem accumulated_eq {palette : List (BlockStateId × Nat)} (h : Tallies palette fun v => cells.count v) :
    accumulated traits zero palette = ofCells traits cells := by
  unfold accumulated ofCells zero
  simp only [traitSum_eq h, Nat.zero_add]

end SectionCounters

/-!
## Sections in the chunk packet

Block states have 15 bits and biomes have 6 when their ids are direct.
-/

instance : ToGlobalId BlockStateId := ⟨fun state => state.id.toUInt32⟩

instance : ToGlobalId UInt16 := ⟨UInt16.toUInt32⟩

namespace PalettedContainer

theorem Reachable.decodes_iff {V : Type} [DecidableEq V] [ToGlobalId V] {dim : Nat} {c : PalettedContainer V dim}
    (h : c.Reachable) (hbuilding : ¬ c.IsBuilding) (hvolume : 0 < Cube.volume dim)
    (hlimit : Cube.volume dim + 1 < countLimit) : c.Decodes ↔ c.Fits :=
  PalettedContainer.decodes_iff (h.exact hvolume hlimit) hbuilding

/-- **The chunk packet** gives back the cells of a container exactly when its values fit. -/
theorem packet_decodes (blocks : BlockPalette) (biomes : BiomePalette) :
    (blocks.Reachable → ¬ blocks.IsBuilding → (blocks.Decodes ↔ blocks.Fits)) ∧
      (biomes.Reachable → ¬ biomes.IsBuilding → (biomes.Decodes ↔ biomes.Fits)) :=
  ⟨fun h hbuilding => h.decodes_iff hbuilding (by decide) (by decide),
    fun h hbuilding => h.decodes_iff hbuilding (by decide) (by decide)⟩

theorem uniform_packet_decodes :
    ((homogeneous ⟨1⟩ : BlockPalette).Decodes ↔ (homogeneous ⟨1⟩ : BlockPalette).Fits) ∧
      ((homogeneous 64 : BiomePalette).Decodes ↔ (homogeneous 64 : BiomePalette).Fits) :=
  have hdecodes := packet_decodes (homogeneous ⟨1⟩) (homogeneous 64)
  ⟨hdecodes.1 (.homogeneous _) not_false, hdecodes.2 (.homogeneous _) not_false⟩

/-- Nine biomes of a registry of 66, one of them with id 64. -/
def nineBiomes : Cube UInt16 4 := .ofCells fun x y z => if Cube.index x y z < 8 then .ofNat (Cube.index x y z) else 64

/-- The id 64 does not fit six bits. -/
theorem wide_biome_lost : ∃ c : BiomePalette, fromCube nineBiomes = some c ∧ ¬ c.IsBuilding ∧
    (∀ x y z, (c.get x y z).toNat < 66) ∧ ¬ c.Decodes := by
  obtain ⟨c, hc, hexact, hbuilding, hcells⟩ := fromCube_ok (by decide) (by decide) nineBiomes
  have hget : ∀ x y z, c.get x y z = nineBiomes.get x y z := fun x y z =>
    get_of_cells (c := building nineBiomes) hcells
  refine ⟨c, hc, hbuilding, fun x y z => ?_, ?_⟩
  · rw [hget]
    revert x y z
    decide
  · rw [decodes_iff hexact hbuilding]
    rintro (hfew | hfit)
    · rw [hcells] at hfew
      exact absurd hfew (by decide +kernel)
    · have hwide := hfit 3 3 3
      rw [hget] at hwide
      exact absurd hwide (by decide)

end PalettedContainer

end Foton

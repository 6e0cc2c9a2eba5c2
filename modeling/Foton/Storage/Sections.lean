import Foton.Identifier
import Foton.Section.Counts
import Foton.Storage.Palette

/-!
# Stored sections

The sections of a chunk are stored under one builder, which collects the block
states and the biomes of the chunk. What is stored passes the checks of the
loader, and the loader makes sections with the same cells.
-/

namespace Foton

/-- The block and biome registries, whose entries are generated. -/
structure Registry where
  byStateId : BlockStateId → Option Identifier
  getProperties : BlockStateId → List (String × String)
  stateIdFromProperties : Identifier → List (String × String) → Option BlockStateId
  biomeById : Nat → Option Identifier
  biomeIdFromKey : Identifier → Option Nat

/-- A registered state is found by its name and its properties, which are named once each, and a registered biome by
its key. -/
structure Registry.Lawful (r : Registry) : Prop where
  stateIdFromProperties : ∀ {id name}, r.byStateId id = some name →
    r.stateIdFromProperties name (r.getProperties id) = some id
  propertyNames : ∀ {id name}, r.byStateId id = some name → ((r.getProperties id).map Prod.fst).Nodup
  biomeIdFromKey : ∀ {id key}, r.biomeById id = some key → r.biomeIdFromKey key = some id

structure PersistentBlockState where
  name : Identifier
  properties : List (String × String)
  deriving DecidableEq

/-- The two variants of the source differ in the states alone. -/
structure PersistentSection where
  states : PersistentPalette
  biomes : PersistentPalette
  deriving DecidableEq

structure PersistentChunk where
  blockStates : List PersistentBlockState
  biomes : List Identifier
  sections : List PersistentSection

structure ChunkBuilder where
  blockStates : List PersistentBlockState
  biomes : List Identifier

def ChunkBuilder.new : ChunkBuilder := ⟨[], []⟩

section
variable (r : Registry)

def Registry.describeState (id : BlockStateId) : Option PersistentBlockState :=
  (r.byStateId id).map fun name => ⟨name, r.getProperties id⟩

def Registry.describeBiome (id : UInt16) : Option Identifier := r.biomeById id.toNat

def biomesToPersistent (biomes : BiomePalette) (builder : ChunkBuilder) : Option (PersistentPalette × ChunkBuilder) := do
  let (stored, table) ← containerToPersistent r.describeBiome biomes builder.biomes
  some (stored, { builder with biomes := table })

def sectionToPersistent (s : ChunkSection) (builder : ChunkBuilder) : Option (PersistentSection × ChunkBuilder) := do
  let (biomes, builder) ← biomesToPersistent r s.biomes builder
  let (states, table) ← containerToPersistent r.describeState s.states builder.blockStates
  some (⟨states, biomes⟩, { builder with blockStates := table })

def sectionsToPersistent : List ChunkSection → ChunkBuilder → Option (List PersistentSection × ChunkBuilder)
  | [], builder => some ([], builder)
  | s :: rest, builder => do
    let (stored, builder) ← sectionToPersistent r s builder
    let (storedRest, builder) ← sectionsToPersistent rest builder
    some (stored :: storedRest, builder)

/-- The section checks of `validate_persistent_chunk`. -/
def validateSections (persistent : PersistentChunk) (expectedSections : Nat) : Except LoadFailure Unit :=
  if persistent.sections.length ≠ expectedSections then
    invalidChunkData s!"chunk has {persistent.sections.length} sections, expected {expectedSections}"
  else persistent.sections.zipIdx.forM fun (s, sectionIndex) => do
    validatePalette sectionIndex 4096 persistent.blockStates.length "block-state" s.states
    validatePalette sectionIndex 64 persistent.biomes.length "biome" s.biomes

def resolveBlockState (chunk : PersistentChunk) (index : UInt16) : Except LoadFailure BlockStateId :=
  match chunk.blockStates[index.toNat]? with
  | none => invalidChunkData s!"missing block-state palette entry {index}"
  | some state =>
    match r.stateIdFromProperties state.name state.properties with
    | none => invalidChunkData s!"unresolvable block state {state.name} with properties {reprStr state.properties}"
    | some stateId =>
      let canonical := r.getProperties stateId
      let uniqueNames := (state.properties.map Prod.fst).dedup
      if uniqueNames.length ≠ state.properties.length ∨ canonical.length ≠ state.properties.length ∨
          canonical.any fun property => !state.properties.contains property then
        invalidChunkData s!"noncanonical block state {state.name} with properties {reprStr state.properties}"
      else .ok stateId

def resolveBiome (chunk : PersistentChunk) (index : UInt16) : Except LoadFailure UInt16 :=
  match chunk.biomes[index.toNat]? with
  | none => invalidChunkData s!"missing biome palette entry {index}"
  | some biomeKey =>
    match r.biomeIdFromKey biomeKey with
    | none => invalidChunkData s!"unknown biome {biomeKey}"
    | some id =>
      if id < 2 ^ 16 then .ok (.ofNat id) else invalidChunkData s!"biome {biomeKey} id {id} does not fit u16"

def persistentToBiomes (chunk : PersistentChunk) (stored : PersistentPalette) : Except LoadFailure BiomePalette :=
  persistentToContainer "biome" (resolveBiome r chunk) 0 stored

def persistentToSection (chunk : PersistentChunk) (stored : PersistentSection) : Except LoadFailure ChunkSection := do
  let states ← persistentToContainer "block" (resolveBlockState r chunk) ⟨0⟩ stored.states
  let biomes ← persistentToBiomes r chunk stored.biomes
  .ok ⟨states, biomes, .zero⟩

end

/-! ## The registry -/

section
variable {r : Registry}

theorem resolveBlockState_ok (hr : r.Lawful) (chunk : PersistentChunk) {id : BlockStateId}
    {index : UInt16} (h : Refers r.describeState chunk.blockStates id index) : resolveBlockState r chunk index = .ok id := by
  obtain ⟨state, hdescribe, hstate⟩ := h
  obtain ⟨name, hname, rfl⟩ := Option.map_eq_some_iff.mp hdescribe
  have hnames := List.Nodup.dedup (hr.propertyNames hname)
  simp [resolveBlockState, hstate, hr.stateIdFromProperties hname, hnames]

theorem resolveBiome_ok (hr : r.Lawful) (chunk : PersistentChunk) {id index : UInt16}
    (h : Refers r.describeBiome chunk.biomes id index) : resolveBiome r chunk index = .ok id := by
  obtain ⟨key, hdescribe, hkey⟩ := h
  have hid := hr.biomeIdFromKey hdescribe
  simp [resolveBiome, hkey, hid, id.toNat_lt]

theorem Built.length_le {V K : Type} {describe : V → Option K} {table : List K} (h : Built describe table)
    (ofId : Nat → V) (hid : ∀ v, ∃ n < 2 ^ 16, ofId n = v) : table.length ≤ 2 ^ 16 := by
  have hsub : table ⊆ (List.range (2 ^ 16)).filterMap fun n => describe (ofId n) := fun k hk => by
    obtain ⟨v, hv⟩ := h.described k hk
    obtain ⟨n, hn, rfl⟩ := hid v
    exact List.mem_filterMap.mpr ⟨n, List.mem_range.mpr hn, hv⟩
  calc table.length ≤ ((List.range (2 ^ 16)).filterMap fun n => describe (ofId n)).length :=
        (h.nodup.subperm hsub).length_le
    _ ≤ (List.range (2 ^ 16)).length := List.length_filterMap_le _ _
    _ = 2 ^ 16 := List.length_range

theorem states_small (table : List PersistentBlockState) (h : Built r.describeState table) : table.length ≤ 2 ^ 16 :=
  h.length_le (fun n => ⟨.ofNat n⟩) fun v => ⟨v.id.toNat, v.id.toNat_lt, by simp⟩

theorem biomes_small (table : List Identifier) (h : Built r.describeBiome table) : table.length ≤ 2 ^ 16 :=
  h.length_le UInt16.ofNat fun v => ⟨v.toNat, v.toNat_lt, by simp⟩

end

/-! ## Sections -/

section
variable {r : Registry} {builder builder' : ChunkBuilder} {s : ChunkSection} {stored : PersistentSection}

/-- A section that can be stored: finalized, with registered values only. -/
structure ChunkSection.Registered (r : Registry) (s : ChunkSection) : Prop where
  statesReachable : s.states.Reachable
  biomesReachable : s.biomes.Reachable
  statesBuilt : ¬ s.states.IsBuilding
  biomesBuilt : ¬ s.biomes.IsBuilding
  states : ∀ x y z, (r.byStateId (s.states.get x y z)).isSome
  biomes : ∀ x y z, (r.biomeById (s.biomes.get x y z).toNat).isSome

def ChunkSection.SameCells (s s' : ChunkSection) : Prop :=
  (∀ x y z, s'.states.get x y z = s.states.get x y z) ∧ ∀ x y z, s'.biomes.get x y z = s.biomes.get x y z

structure ChunkBuilder.Built (r : Registry) (builder : ChunkBuilder) : Prop where
  blockStates : Foton.Built r.describeState builder.blockStates
  biomes : Foton.Built r.describeBiome builder.biomes

/-- The tables only grow. -/
structure ChunkBuilder.Grows (builder builder' : ChunkBuilder) : Prop where
  blockStates : builder.blockStates <+: builder'.blockStates
  biomes : builder.biomes <+: builder'.biomes

theorem ChunkBuilder.Grows.trans {builder'' : ChunkBuilder} (h : builder.Grows builder') (h' : builder'.Grows builder'') :
    builder.Grows builder'' :=
  ⟨h.blockStates.trans h'.blockStates, h.biomes.trans h'.biomes⟩

structure StoresSection (r : Registry) (builder : ChunkBuilder) (s : ChunkSection) (stored : PersistentSection) :
    Prop where
  states : Stores r.describeState builder.blockStates s.states stored.states
  biomes : Stores r.describeBiome builder.biomes s.biomes stored.biomes

theorem StoresSection.mono (h : StoresSection r builder s stored) (hgrows : builder.Grows builder') :
    StoresSection r builder' s stored :=
  ⟨h.states.mono hgrows.blockStates, h.biomes.mono hgrows.biomes⟩

theorem sectionToPersistent_ok (h : builder.Built r) (hs : s.Registered r) : ∃ stored builder',
    sectionToPersistent r s builder = some (stored, builder') ∧ builder.Grows builder' ∧ builder'.Built r ∧
      StoresSection r builder' s stored := by
  have hbiomes : ∀ v ∈ s.biomes.cells, (r.describeBiome v).isSome := fun v hv => by
    obtain ⟨x, y, z, rfl⟩ := PalettedContainer.mem_cells hv
    exact hs.biomes x y z
  have hstates : ∀ v ∈ s.states.cells, (r.describeState v).isSome := fun v hv => by
    obtain ⟨x, y, z, rfl⟩ := PalettedContainer.mem_cells hv
    simpa [Registry.describeState] using hs.states x y z
  obtain ⟨biomes, biomeTable, hbiome, hgrow, hbuilt, hstores⟩ := containerToPersistent_ok biomes_small h.biomes
    (hs.biomesReachable.exact (by decide) (by decide)) hs.biomesBuilt (by decide) (by decide) hbiomes
  obtain ⟨states, stateTable, hstate, hgrow', hbuilt', hstores'⟩ := containerToPersistent_ok states_small
    h.blockStates (hs.statesReachable.exact (by decide) (by decide)) hs.statesBuilt (by decide) (by decide) hstates
  refine ⟨⟨states, biomes⟩, ⟨stateTable, biomeTable⟩, ?_, ⟨hgrow', hgrow⟩, ⟨hbuilt', hbuilt⟩, hstores', hstores⟩
  simp [sectionToPersistent, biomesToPersistent, hbiome, hstate]

theorem sectionsToPersistent_ok {sections : List ChunkSection} (h : builder.Built r)
    (hs : ∀ s ∈ sections, s.Registered r) : ∃ stored builder',
      sectionsToPersistent r sections builder = some (stored, builder') ∧ builder.Grows builder' ∧
        List.Forall₂ (StoresSection r builder') sections stored := by
  induction sections generalizing builder with
  | nil => exact ⟨[], builder, rfl, ⟨List.prefix_refl _, List.prefix_refl _⟩, .nil⟩
  | cons s rest ih =>
    obtain ⟨stored, builder₁, hstored, hgrows₁, hbuilt₁, hstores⟩ := sectionToPersistent_ok h (hs s (by simp))
    obtain ⟨storedRest, builder₂, hrest, hgrows₂, hstoresRest⟩ := ih hbuilt₁ fun s hmem => hs s (by simp [hmem])
    refine ⟨stored :: storedRest, builder₂, ?_, hgrows₁.trans hgrows₂, .cons (hstores.mono hgrows₂) hstoresRest⟩
    simp [sectionsToPersistent, hstored, hrest]

theorem validateSections_ok {sections : List ChunkSection} {storedSections : List PersistentSection}
    (h : List.Forall₂ (StoresSection r builder) sections storedSections) :
    validateSections ⟨builder.blockStates, builder.biomes, storedSections⟩ sections.length = .ok () := by
  have hloop : ∀ n, (storedSections.zipIdx n).forM (fun (e : PersistentSection × Nat) => do
      validatePalette e.2 4096 builder.blockStates.length "block-state" e.1.states
      validatePalette e.2 64 builder.biomes.length "biome" e.1.biomes) = .ok () := by
    induction h with
    | nil => exact fun _ => rfl
    | @cons s stored sections storedSections hstores _ ih =>
      intro n
      have hstates := hstores.states.validate n "block-state"
      have hbiomes := hstores.biomes.validate n "biome"
      show (validatePalette n (Cube.volume 16) _ _ _ >>= fun _ => validatePalette n (Cube.volume 4) _ _ _) >>=
        (fun _ => (storedSections.zipIdx (n + 1)).forM _) = _
      rw [hstates, hbiomes]
      exact ih (n + 1)
  unfold validateSections
  rw [if_neg (by simp [h.length_eq])]
  exact hloop 0

theorem persistentToSection_ok (hr : r.Lawful) {storedSections : List PersistentSection}
    (h : StoresSection r builder s stored) :
    ∃ s', persistentToSection r ⟨builder.blockStates, builder.biomes, storedSections⟩ stored = .ok s' ∧
      s.SameCells s' := by
  let chunk : PersistentChunk := ⟨builder.blockStates, builder.biomes, storedSections⟩
  obtain ⟨states, hstates, hsame⟩ := h.states.reload (by decide) (by decide)
    (fun _ _ hrefers => resolveBlockState_ok hr chunk hrefers) "block" ⟨0⟩
  obtain ⟨biomes, hbiomes, hsame'⟩ := h.biomes.reload (by decide) (by decide)
    (fun _ _ hrefers => resolveBiome_ok hr chunk hrefers) "biome" 0
  refine ⟨⟨states, biomes, .zero⟩, ?_, fun x y z => PalettedContainer.get_of_cells hsame,
    fun x y z => PalettedContainer.get_of_cells hsame'⟩
  simp [persistentToSection, persistentToBiomes, hstates, hbiomes, chunk, bind, Except.bind]

theorem mapM_forall₂ {α β γ ε : Type} {f : β → Except ε γ} {R : α → β → Prop} {P : α → γ → Prop} {as : List α}
    {bs : List β} (h : List.Forall₂ R as bs) (hf : ∀ a b, R a b → ∃ c, f b = .ok c ∧ P a c) :
    ∃ cs, bs.mapM f = .ok cs ∧ List.Forall₂ P as cs := by
  induction h with
  | nil => exact ⟨[], rfl, .nil⟩
  | cons hab _ ih =>
    obtain ⟨c, hc, hP⟩ := hf _ _ hab
    obtain ⟨cs, hcs, hPs⟩ := ih
    refine ⟨c :: cs, ?_, .cons hP hPs⟩
    rw [List.mapM_cons, hc, hcs]
    rfl

/-- **Storing and loading** the sections of a chunk changes no cell, and the loader accepts what was stored. -/
theorem persistent_sections (hr : r.Lawful) {sections : List ChunkSection} (hs : ∀ s ∈ sections, s.Registered r) :
    ∃ storedSections builder, sectionsToPersistent r sections .new = some (storedSections, builder) ∧
      validateSections ⟨builder.blockStates, builder.biomes, storedSections⟩ sections.length = .ok () ∧
      ∃ reloaded, storedSections.mapM (persistentToSection r
        ⟨builder.blockStates, builder.biomes, storedSections⟩) = .ok reloaded ∧
        List.Forall₂ ChunkSection.SameCells sections reloaded := by
  have hnew : ChunkBuilder.new.Built r := ⟨⟨List.nodup_nil, by simp [ChunkBuilder.new]⟩,
    ⟨List.nodup_nil, by simp [ChunkBuilder.new]⟩⟩
  obtain ⟨storedSections, builder, hstored, -, hstores⟩ := sectionsToPersistent_ok hnew hs
  exact ⟨storedSections, builder, hstored, validateSections_ok hstores,
    mapM_forall₂ hstores fun _ _ hstored => persistentToSection_ok hr hstored⟩

/-- A registry of one block and one biome. -/
def airRegistry : Registry where
  byStateId id := if id = ⟨0⟩ then some ⟨"minecraft", "air"⟩ else none
  getProperties _ := []
  stateIdFromProperties name _ := if name = ⟨"minecraft", "air"⟩ then some ⟨0⟩ else none
  biomeById id := if id = 0 then some ⟨"minecraft", "plains"⟩ else none
  biomeIdFromKey key := if key = ⟨"minecraft", "plains"⟩ then some 0 else none

theorem empty_sections_persist : ∃ storedSections builder,
    sectionsToPersistent airRegistry [⟨.homogeneous ⟨0⟩, .homogeneous 0, .zero⟩] .new = some (storedSections, builder) ∧
      validateSections ⟨builder.blockStates, builder.biomes, storedSections⟩ 1 = .ok () ∧
      ∃ reloaded, storedSections.mapM (persistentToSection airRegistry
        ⟨builder.blockStates, builder.biomes, storedSections⟩) = .ok reloaded ∧
        List.Forall₂ ChunkSection.SameCells [⟨.homogeneous ⟨0⟩, .homogeneous 0, .zero⟩] reloaded := by
  have hlawful : airRegistry.Lawful := by
    constructor
    all_goals
      intro id name h
      simp only [airRegistry] at h ⊢
      split at h <;> simp_all
  refine persistent_sections hlawful fun s hs => ?_
  cases List.mem_singleton.mp hs
  exact ⟨.homogeneous _, .homogeneous _, not_false, not_false, fun _ _ _ => rfl, fun _ _ _ => rfl⟩

end

end Foton

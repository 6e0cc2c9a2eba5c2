import Foton.Chunk.Basic
import Mathlib.Order.Lattice
import Mathlib.Order.Basic

/-!
# The generation pyramid and ticket levels

A step of chunk generation needs its neighbours at lower statuses. The builder
accumulates these needs over all earlier steps; a dependency list gives, for each
distance, the status that a chunk at that distance must have.

How far the needs of a full chunk reach bounds the levels of tickets. Lower
levels are stronger. A level is at most `maxLevelRaw`, and a ticket's load
level is never much weaker than its simulation level: no constructor builds
another one.
-/

namespace Foton

/-! ## The generation pyramid -/

def maxRadius : Nat := 16

/-- `dependency_by_radius` up to `len`. -/
structure ChunkDependencies where
  dependencyByRadius : List (Option ChunkStatus)
  deriving DecidableEq, Repr

def constMaxStatus : Option ChunkStatus → Option ChunkStatus → Option ChunkStatus
  | some a, some b => if a.getIndex > b.getIndex then some a else some b
  | some s, none => some s
  | none, some s => some s
  | none, none => none

namespace ChunkDependencies

def len (d : ChunkDependencies) : Nat := d.dependencyByRadius.length

def get (d : ChunkDependencies) (distance : Nat) : Option ChunkStatus := d.dependencyByRadius.getD distance none

/-- One requirement: the list grows to its radius, and lower statuses inside it are raised. -/
def require (deps : List (Option ChunkStatus)) (req : ChunkStatus × Nat) : List (Option ChunkStatus) :=
  let newLen := req.2 + 1
  let extended := deps ++ List.replicate (newLen - deps.length) (some req.1)
  extended.mapIdx fun j dep =>
    match dep with
    | some existing => if j < newLen ∧ req.1.getIndex > existing.getIndex then some req.1 else some existing
    | none => none

def fromRequirements (reqs : List (ChunkStatus × Nat)) (parentStatus : Option ChunkStatus) : ChunkDependencies :=
  ⟨reqs.foldl require (match parentStatus with | some parent => [some parent] | none => [])⟩

/-- The last radius at which `status` or more is needed, zero if there is none. -/
def lastRadiusOf (d : ChunkDependencies) (status : ChunkStatus) : Nat :=
  d.dependencyByRadius.zipIdx.foldl (fun radius (dep, i) =>
    match dep with
    | some s => if s.getIndex ≥ status.getIndex then i else radius
    | none => radius) 0

def accumulate (d parentAccumulated : ChunkDependencies) (parentStatus : ChunkStatus) : ChunkDependencies :=
  let radiusOfParent := d.lastRadiusOf parentStatus
  let cappedLen := min (max (radiusOfParent + parentAccumulated.len) d.len) maxRadius
  ⟨(List.range cappedLen).map fun dist =>
    constMaxStatus (d.get dist) (parentAccumulated.get (dist - radiusOfParent))⟩

/-- The entry of `radius_by_dependency` for `status`. -/
def getRadiusOf (d : ChunkDependencies) (status : ChunkStatus) : Nat := d.lastRadiusOf status

end ChunkDependencies

structure ChunkStep where
  targetStatus : ChunkStatus
  directDependencies : ChunkDependencies
  accumulatedDependencies : ChunkDependencies
  blockStateWriteRadius : Int
  deriving DecidableEq, Repr

/-- The steps of a pyramid, the last one first. -/
def pyramidStep (steps : List ChunkStep) (status : ChunkStatus) (requirements : List (ChunkStatus × Nat))
    (blockStateWriteRadius : Int) : List ChunkStep :=
  match steps with
  | [] =>
    let direct := ChunkDependencies.fromRequirements requirements none
    [⟨status, direct, direct, blockStateWriteRadius⟩]
  | parent :: _ =>
    let direct := ChunkDependencies.fromRequirements requirements (some parent.targetStatus)
    ⟨status, direct, direct.accumulate parent.accumulatedDependencies parent.targetStatus, blockStateWriteRadius⟩ :: steps

def definePyramid (rows : List (ChunkStatus × List (ChunkStatus × Nat) × Int)) : List ChunkStep :=
  (rows.foldl (fun steps (status, requirements, radius) => pyramidStep steps status requirements radius) []).reverse

def generationPyramid : List ChunkStep := definePyramid
  [(.empty, [], -1),
    (.structureStarts, [], -1),
    (.structureReferences, [(.structureStarts, 8)], -1),
    (.biomes, [(.structureStarts, 8)], -1),
    (.noise, [(.structureStarts, 8), (.biomes, 1)], 0),
    (.surface, [(.structureStarts, 8), (.biomes, 1)], 0),
    (.carvers, [(.structureStarts, 8)], 0),
    (.features, [(.structureStarts, 8), (.carvers, 1)], 1),
    (.initializeLight, [], -1),
    (.light, [(.initializeLight, 1)], 0),
    (.spawn, [(.biomes, 1)], -1),
    (.full, [], -1)]

def getStepTo (pyramid : List ChunkStep) (status : ChunkStatus) : Option ChunkStep := pyramid[status.getIndex]?

/-! ## Levels -/

def maxSupportedViewDistance : Nat := 128
def fullChunkLevelRaw : Nat := maxSupportedViewDistance + 2

def radiusAroundFullChunk : Nat :=
  match getStepTo generationPyramid .full with
  | some step => step.accumulatedDependencies.getRadiusOf .empty
  | none => 0

def maxLevelRaw : Nat := fullChunkLevelRaw + radiusAroundFullChunk

theorem maxLevelRaw_eq : maxLevelRaw = 141 := by decide

structure ChunkTicketLevel where
  raw : Nat
  le_max : raw ≤ maxLevelRaw
  deriving DecidableEq

namespace ChunkTicketLevel

theorem raw_inj {a b : ChunkTicketLevel} (h : a.raw = b.raw) : a = b := by
  cases a
  cases b
  cases h
  rfl

instance : LinearOrder ChunkTicketLevel := LinearOrder.lift' raw fun _ _ => raw_inj

theorem le_iff {a b : ChunkTicketLevel} : a ≤ b ↔ a.raw ≤ b.raw := Iff.rfl

def new (raw : Nat) : Option ChunkTicketLevel := if h : raw ≤ maxLevelRaw then some ⟨raw, h⟩ else none

theorem new_eq_some {raw : Nat} {l : ChunkTicketLevel} : new raw = some l ↔ l.raw = raw := by
  unfold new
  by_cases h : raw ≤ maxLevelRaw
  · rw [dif_pos h, Option.some.injEq]
    exact ⟨fun hl => by rw [← hl], fun hl => raw_inj hl.symm⟩
  · rw [dif_neg h]
    refine ⟨fun hl => (by cases hl), fun hl => absurd l.le_max ?_⟩
    rw [hl]
    exact h

def entityTickingChunk : ChunkTicketLevel := ⟨maxSupportedViewDistance, by decide⟩
def blockTickingChunk : ChunkTicketLevel := ⟨maxSupportedViewDistance + 1, by decide⟩
def fullChunk : ChunkTicketLevel := ⟨fullChunkLevelRaw, by decide⟩
def max : ChunkTicketLevel := ⟨maxLevelRaw, Nat.le_refl _⟩

def forFullChunkRadius (radius : Nat) : ChunkTicketLevel :=
  ⟨fullChunkLevelRaw - radius, Nat.le_trans (Nat.sub_le _ _) (Nat.le_add_right _ _)⟩

def forEntityTickingRadius (radius : Nat) : ChunkTicketLevel :=
  ⟨entityTickingChunk.raw - radius, Nat.le_trans (Nat.sub_le _ _) entityTickingChunk.le_max⟩

/-- The sum saturates in `u8` before the bound is checked. -/
def withDistance (l : ChunkTicketLevel) (distance : Nat) : Option ChunkTicketLevel := new (min (l.raw + distance) 255)

def distanceToMax (l : ChunkTicketLevel) : Nat := maxLevelRaw - l.raw

def distanceToBlockTicking (l : ChunkTicketLevel) : Nat := blockTickingChunk.raw - l.raw

theorem withDistance_eq_some {l l' : ChunkTicketLevel} {distance : Nat} :
    l.withDistance distance = some l' ↔ l'.raw = l.raw + distance := by
  unfold withDistance
  rw [new_eq_some]
  have hmax := maxLevelRaw_eq
  have hl' := l'.le_max
  omega

end ChunkTicketLevel

structure ChunkTicket where
  loadLevel : ChunkTicketLevel
  simulationLevel : Option ChunkTicketLevel
  reach : ∀ s, simulationLevel = some s → loadLevel.raw ≤ s.raw + 2
  deriving DecidableEq

namespace ChunkTicket

def loading (loadLevel : ChunkTicketLevel) : ChunkTicket := ⟨loadLevel, none, fun _ h => by cases h⟩

def fullChunks (radius : Nat) : ChunkTicket := loading (.forFullChunkRadius radius)

def simulatedFullChunks (radius : Nat) : ChunkTicket :=
  let level := ChunkTicketLevel.forFullChunkRadius radius
  ⟨level, some level, fun _ h => by cases h; exact Nat.le_add_right _ _⟩

/-- A simulation radius is cut to the load radius. -/
def capRadius (radius bound : Nat) : Nat := if radius > bound then bound else radius

theorem capRadius_le (radius bound : Nat) : capRadius radius bound ≤ bound := by
  unfold capRadius
  split <;> omega

def fullChunksWithEntityTicking (loadRadius entityTickingRadius : Nat) : ChunkTicket :=
  ⟨.forFullChunkRadius loadRadius, some (.forEntityTickingRadius (capRadius entityTickingRadius loadRadius)), fun _ h => by
    cases h
    have := capRadius_le entityTickingRadius loadRadius
    simp only [ChunkTicketLevel.forFullChunkRadius, ChunkTicketLevel.forEntityTickingRadius,
      ChunkTicketLevel.entityTickingChunk, fullChunkLevelRaw, maxSupportedViewDistance]
    omega⟩

def player (viewDistance simulationRadius : Nat) : ChunkTicket :=
  ⟨.forEntityTickingRadius viewDistance, some (.forEntityTickingRadius (capRadius simulationRadius viewDistance)),
    fun _ h => by
      cases h
      have := capRadius_le simulationRadius viewDistance
      simp only [ChunkTicketLevel.forEntityTickingRadius, ChunkTicketLevel.entityTickingChunk, maxSupportedViewDistance]
      omega⟩

/-- What a simulation level reaches, the load level of the same ticket reaches. -/
theorem distanceToBlockTicking_le (t : ChunkTicket) {s : ChunkTicketLevel} (h : t.simulationLevel = some s) :
    s.distanceToBlockTicking ≤ t.loadLevel.distanceToMax := by
  have hreach := t.reach s h
  have hmax := maxLevelRaw_eq
  unfold ChunkTicketLevel.distanceToBlockTicking ChunkTicketLevel.distanceToMax
  rw [hmax]
  simp only [ChunkTicketLevel.blockTickingChunk, maxSupportedViewDistance]
  omega

end ChunkTicket

end Foton

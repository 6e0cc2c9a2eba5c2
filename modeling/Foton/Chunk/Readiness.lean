import Foton.Chunk.Neighborhood
import Foton.Ticket.Level

/-!
# Ticking readiness

A commit of the chunk map takes the ticket changes of an epoch. Holders that lose
their place are demoted first, then each change is applied to its holder, then the
chunks that became Full contribute to the neighbourhoods, and last the holders of
the dirty positions take the readiness that their level and neighbourhood allow.
Generation publishes Full chunks at any time in between.
-/

namespace Foton

namespace ChunkTicketLevel

def isFull (level : ChunkTicketLevel) : Bool := level.raw ≤ fullChunk.raw
def isBlockTicking (level : ChunkTicketLevel) : Bool := level.raw ≤ blockTickingChunk.raw
def isEntityTicking (level : ChunkTicketLevel) : Bool := level.raw ≤ entityTickingChunk.raw

end ChunkTicketLevel

namespace Readiness

inductive TickingReadiness where
  | unready
  | blockTicking
  | entityTicking
  deriving DecidableEq, Repr

def TickingReadiness.toNat : TickingReadiness → Nat
  | unready => 0
  | blockTicking => 1
  | entityTicking => 2

inductive SaveLifecycle where
  | active
  | unloading
  | preparing
  deriving DecidableEq, Repr

structure Holder where
  pos : ChunkPos
  loadLevel : Option ChunkTicketLevel
  simulationLevel : Option ChunkTicketLevel
  /-- The published status is Full. -/
  publishedFull : Bool
  fullStatusInitialized : Bool
  readiness : TickingReadiness
  lifecycle : SaveLifecycle
  deriving DecidableEq

namespace Holder

def new (pos : ChunkPos) (level : ChunkTicketLevel) (simulationLevel : Option ChunkTicketLevel) : Holder :=
  ⟨pos, some level, simulationLevel, false, false, .unready, .active⟩

def hasFullChunk (holder : Holder) : Bool := holder.fullStatusInitialized && holder.publishedFull

/-- The holder is loaded as a Full chunk and its Full chunk is published. -/
def isFullContributor (holder : Holder) : Bool := holder.loadLevel.any (·.isFull) && holder.hasFullChunk

end Holder

structure DeferredChunkRevival where
  loadLevel : ChunkTicketLevel
  simulationLevel : Option ChunkTicketLevel

/-- The chunks that tick, and the indices of those with random ticks and with entity ticks. -/
structure TickingChunkSnapshot where
  block : List (ChunkPos × Nat)
  randomChunkIndices : List Nat
  entityIndices : List Nat

/-- Holders are shared objects: the maps hold their identities. -/
structure ChunkMap where
  holders : Nat → Holder
  nextHolder : Nat
  chunks : AssocList ChunkPos Nat
  unloadingChunks : AssocList ChunkPos Nat
  deferredRevivals : AssocList ChunkPos DeferredChunkRevival
  fullPublications : List (ChunkPos × Nat)
  fullNeighborhood : FullNeighborhoodIndex Nat
  tickingChunks : TickingChunkSnapshot

structure TickingReadinessCandidate where
  pos : ChunkPos
  holder : Nat
  desired : TickingReadiness
  target : TickingReadiness

def desiredTickingReadiness (level : Option ChunkTicketLevel) : TickingReadiness :=
  if level.any (·.isEntityTicking) then .entityTicking
  else if level.any (·.isBlockTicking) then .blockTicking
  else .unready

def targetTickingReadiness (holder : Holder) (level : Option ChunkTicketLevel) (counts : FullNeighborhoodCounts) :
    TickingReadiness :=
  if !holder.hasFullChunk then .unready
  else if level.any (·.isEntityTicking) && counts.entityTickingReady then .entityTicking
  else if level.any (·.isBlockTicking) && counts.blockTickingReady then .blockTicking
  else .unready

/-- Whether a chunk is in the block, random and entity parts of the snapshot. -/
def tickingSnapshotMembership (readiness : TickingReadiness) (simulationLevel : Option ChunkTicketLevel) :
    Bool × Bool × Bool :=
  let block := simulationLevel.any (·.isBlockTicking) && readiness != .unready
  let random := block && simulationLevel.any (·.isEntityTicking)
  (block, random, random && readiness == .entityTicking)

namespace ChunkMap

def start : ChunkMap :=
  ⟨fun _ => .new ⟨0, 0⟩ .max none, 0, ∅, ∅, ∅, [], .default, ⟨[], [], []⟩⟩

def setHolder (m : ChunkMap) (id : Nat) (holder : Holder) : ChunkMap :=
  { m with holders := fun other => if other = id then holder else m.holders other }

def holderAt (m : ChunkMap) (pos : ChunkPos) : Option Holder := (m.chunks.lookup pos).map m.holders

/-! ## Contributors -/

def currentFullContributor (m : ChunkMap) (pos : ChunkPos) : Option Nat :=
  (m.chunks.lookup pos).filter fun id => (m.holders id).isFullContributor

def validateFullPublication (m : ChunkMap) (publication : ChunkPos × Nat) : Option Nat :=
  (m.chunks.lookup publication.1).filter fun active => publication.2 == active && (m.holders active).isFullContributor

/-! ## Candidates -/

def readinessCandidates (m : ChunkMap) (dirty : List (ChunkPos × FullNeighborhoodCounts))
    (newLevels : ChunkPos → Option (Option ChunkTicketLevel)) : List TickingReadinessCandidate :=
  dirty.filterMap fun (pos, counts) =>
    (m.chunks.lookup pos).map fun id =>
      let loadLevel := (newLevels pos).getD (m.holders id).loadLevel
      ⟨pos, id, desiredTickingReadiness loadLevel, targetTickingReadiness (m.holders id) loadLevel counts⟩

def transitionTickingReadiness (m : ChunkMap) (id : Nat) (target : TickingReadiness) : ChunkMap :=
  m.setHolder id { m.holders id with readiness := target }

/-- Whether the transition of a holder to `target` changes its membership in the snapshot. -/
def transitionChangesSnapshot (m : ChunkMap) (id : Nat) (target : TickingReadiness) : Bool :=
  tickingSnapshotMembership (m.holders id).readiness (m.holders id).simulationLevel !=
    tickingSnapshotMembership target (m.holders id).simulationLevel

/-- A demotion, and whether the snapshot changes. -/
def applyDemotion (s : ChunkMap × Bool) (candidate : TickingReadinessCandidate) : ChunkMap × Bool :=
  if (s.1.holders candidate.holder).readiness.toNat ≤ candidate.target.toNat then s
  else
    (s.1.transitionTickingReadiness candidate.holder candidate.target,
      s.2 || s.1.transitionChangesSnapshot candidate.holder candidate.target)

def applyReadinessDemotions (m : ChunkMap) (candidates : List TickingReadinessCandidate) : ChunkMap × Bool :=
  candidates.foldl applyDemotion (m, false)

def updatePendingReadiness (m : ChunkMap) (candidates : List TickingReadinessCandidate) : ChunkMap :=
  { m with
    fullNeighborhood := candidates.foldl (fun neighborhood candidate =>
      if (m.holders candidate.holder).readiness.toNat < candidate.desired.toNat then
        neighborhood.ensurePendingReadiness candidate.pos candidate.holder
      else neighborhood.clearPendingReadiness candidate.pos) m.fullNeighborhood }

/-- A promotion. A holder that was unready is post-processed first, which may fail. -/
def applyPromotion (postProcessFails : ChunkPos → Bool) (s : ChunkMap × Bool) (candidate : TickingReadinessCandidate) :
    ChunkMap × Bool :=
  if candidate.target.toNat ≤ (s.1.holders candidate.holder).readiness.toNat then s
  else if (s.1.holders candidate.holder).readiness = .unready && postProcessFails candidate.pos then s
  else
    (s.1.transitionTickingReadiness candidate.holder candidate.target,
      s.2 || s.1.transitionChangesSnapshot candidate.holder candidate.target)

def applyFinalReadiness (m : ChunkMap) (postProcessFails : ChunkPos → Bool)
    (dirty : List (ChunkPos × FullNeighborhoodCounts)) : ChunkMap × Bool :=
  let candidates := m.readinessCandidates dirty fun _ => none
  let (m, changed) := m.applyReadinessDemotions candidates
  let (m, changed) := candidates.foldl (applyPromotion postProcessFails) (m.updatePendingReadiness candidates, changed)
  (m.updatePendingReadiness candidates, changed)

/-! ## The phases of a commit -/

def mergeDeferredRevivals (m : ChunkMap) (changes : List LevelChange) : List LevelChange × ChunkMap :=
  let kept := m.deferredRevivals.entries.filter fun e => !(changes.map LevelChange.pos).contains e.1
  (changes ++ kept.map fun e => ⟨e.1, some e.2.loadLevel, e.2.simulationLevel⟩, { m with deferredRevivals := ∅ })

def simulationChangesTickingSnapshot (m : ChunkMap) (changes : List LevelChange) : Bool :=
  changes.any fun change =>
    (m.holderAt change.pos).any fun holder =>
      tickingSnapshotMembership holder.readiness holder.simulationLevel !=
        tickingSnapshotMembership holder.readiness change.newSimulationLevel

/-- The new level of a position: that of its last change. -/
def newLevels (changes : List LevelChange) (pos : ChunkPos) : Option (Option ChunkTicketLevel) :=
  (changes.reverse.find? fun change => change.pos = pos).map LevelChange.newLevel

/-- An operation of the index that succeeds. -/
def succeeded : FullNeighborhoodIndex.Outcome Nat → Option (FullNeighborhoodIndex Nat)
  | (.ok (), neighborhood) => some neighborhood
  | (.error _, _) => none

/-- The contributor of a change that takes its level is removed: `none` stands for an error of the index. -/
def removeDemotedContributor (m : ChunkMap) (neighborhood : FullNeighborhoodIndex Nat) (change : LevelChange) :
    Option (FullNeighborhoodIndex Nat) :=
  match m.chunks.lookup change.pos with
  | none => some neighborhood
  | some id =>
    if change.newLevel.any (·.isFull) then some neighborhood
    else succeeded (neighborhood.removeContributorIfMatches change.pos id)

def prepareTickingReadinessDemotions (m : ChunkMap) (changes : List LevelChange) : Option (ChunkMap × Bool) :=
  if changes.isEmpty then some (m, false)
  else do
    let neighborhood ← changes.foldlM m.removeDemotedContributor m.fullNeighborhood
    let neighborhood := (changes.map LevelChange.pos).foldl (fun neighborhood pos => neighborhood.markDirty pos) neighborhood
    let m := { m with fullNeighborhood := neighborhood }
    let candidates := m.readinessCandidates neighborhood.dirtyCountsSnapshot (newLevels changes)
    let (m, changed) := m.applyReadinessDemotions candidates
    some (m.updatePendingReadiness candidates, changed)

/-- The holder of a position that is not loaded: one that is unloading is revived, otherwise there is a new one. -/
def activate (m : ChunkMap) (pos : ChunkPos) (level : ChunkTicketLevel) (simulationLevel : Option ChunkTicketLevel) :
    Option Nat × ChunkMap :=
  match m.unloadingChunks.lookup pos with
  | some id =>
    if (m.holders id).lifecycle = .unloading then
      (some id, { m.setHolder id { m.holders id with lifecycle := .active } with
        unloadingChunks := m.unloadingChunks.erase pos, chunks := m.chunks.insert pos id })
    else (none, { m with deferredRevivals := m.deferredRevivals.insert pos ⟨level, simulationLevel⟩ })
  | none =>
    (some m.nextHolder, { m.setHolder m.nextHolder (.new pos level simulationLevel) with
      nextHolder := m.nextHolder + 1, chunks := m.chunks.insert pos m.nextHolder })

/-- The new level of a loaded holder. -/
def raise (m : ChunkMap) (pos : ChunkPos) (id : Nat) (level : ChunkTicketLevel)
    (simulationLevel : Option ChunkTicketLevel) : ChunkMap :=
  let old := (m.holders id).loadLevel
  let m := m.setHolder id { m.holders id with loadLevel := some level, simulationLevel }
  if level.isFull && !old.any (·.isFull) && (m.holders id).hasFullChunk then
    { m with fullPublications := m.fullPublications ++ [(pos, id)] }
  else m

/-- A holder without a level goes to the unloading chunks. -/
def unload (m : ChunkMap) (pos : ChunkPos) (id : Nat) : ChunkMap :=
  { m.setHolder id { m.holders id with lifecycle := .unloading, loadLevel := none, simulationLevel := none } with
    chunks := m.chunks.erase pos
    unloadingChunks := if (m.unloadingChunks.lookup pos).isSome then m.unloadingChunks else m.unloadingChunks.insert pos id }

def updateChunkLevel (m : ChunkMap) (change : LevelChange) : ChunkMap :=
  match change.newLevel with
  | none =>
    let m := { m with deferredRevivals := m.deferredRevivals.erase change.pos }
    match m.chunks.lookup change.pos with
    | some id => m.unload change.pos id
    | none => m
  | some level =>
    match m.chunks.lookup change.pos with
    | some id => m.raise change.pos id level change.newSimulationLevel
    | none =>
      match m.activate change.pos level change.newSimulationLevel with
      | (some id, m) => m.raise change.pos id level change.newSimulationLevel
      | (none, m) => m

/-- What each position is reconciled with: a valid publication counts before the current contributor. -/
def contributorUpdates (m : ChunkMap) (changedPositions : List ChunkPos) : AssocList ChunkPos (Option Nat) :=
  AssocList.insertAll
    (changedPositions.map (fun pos => (pos, m.currentFullContributor pos)) ++
      m.fullPublications.filterMap fun publication =>
        (m.validateFullPublication publication).map fun id => (publication.1, some id)) ∅

/-- The publications are drained and the neighbourhoods follow: what comes back are the dirty counts. -/
def reconcileTickingReadiness (m : ChunkMap) (changedPositions : List ChunkPos) :
    Option (List (ChunkPos × FullNeighborhoodCounts) × ChunkMap) :=
  if m.fullPublications.isEmpty && changedPositions.isEmpty then some ([], m)
  else do
    let updates := m.contributorUpdates changedPositions
    let neighborhood := changedPositions.foldl (fun neighborhood pos => neighborhood.markDirty pos) m.fullNeighborhood
    let neighborhood ← updates.entries.foldlM
      (fun neighborhood update => succeeded (neighborhood.reconcileContributor update.1 update.2)) neighborhood
    let (dirty, neighborhood) := neighborhood.takeDirtyCounts
    some (dirty, { m with fullPublications := [], fullNeighborhood := neighborhood })

/-- The loaded chunks in the order of the map's iteration. -/
def snapshotStep (m : ChunkMap) (snapshot : TickingChunkSnapshot) (pos : ChunkPos) (id : Nat) : TickingChunkSnapshot :=
  let holder := m.holders id
  match holder.simulationLevel with
  | none => snapshot
  | some simulationLevel =>
    if !simulationLevel.isBlockTicking || holder.readiness = .unready then snapshot
    else if !holder.publishedFull then snapshot
    else
      let index := snapshot.block.length
      { block := snapshot.block ++ [(pos, id)]
        randomChunkIndices :=
          if simulationLevel.isEntityTicking then snapshot.randomChunkIndices ++ [index]
          else snapshot.randomChunkIndices
        entityIndices :=
          if simulationLevel.isEntityTicking && holder.readiness = .entityTicking then snapshot.entityIndices ++ [index]
          else snapshot.entityIndices }

def rebuildTickingChunkSnapshot (m : ChunkMap) : ChunkMap :=
  { m with tickingChunks := m.chunks.entries.foldl (fun snapshot e => m.snapshotStep snapshot e.1 e.2) ⟨[], [], []⟩ }

end ChunkMap

/-! ## Commits among the other threads -/

/-- Where a commit stands; `rebuild` says whether the snapshot is to be rebuilt at its end. -/
inductive Phase where
  | idle
  | committing (remaining : List LevelChange) (changed : List ChunkPos) (rebuild : Bool)
  | reconciling (changed : List ChunkPos) (rebuild : Bool)
  | finishing (dirty : List (ChunkPos × FullNeighborhoodCounts)) (rebuild : Bool)

def Phase.isIdle : Phase → Bool
  | idle => true
  | _ => false

theorem Phase.isIdle_iff {phase : Phase} : phase.isIdle = true ↔ phase = .idle := by
  cases phase <;> simp [isIdle]

structure System where
  map : ChunkMap
  phase : Phase

def System.start : System := ⟨.start, .idle⟩

inductive Step where
  /-- Generation publishes the status Full of a holder. -/
  | publishStatus (id : Nat)
  /-- Generation initializes a published Full chunk and queues its publication. -/
  | publishFull (id : Nat)
  | beginSavePreparation (id : Nat)
  | endSavePreparation (id : Nat)
  /-- An unloading holder is saved and dropped. -/
  | finishUnload (pos : ChunkPos)
  | beginCommit (changes : List LevelChange)
  | commitChange
  | reconcile
  /-- The dirty holders take their readiness; post-processing fails at some positions. -/
  | finish (postProcessFails : ChunkPos → Bool)

namespace ChunkMap

def publishStatus (m : ChunkMap) (id : Nat) : ChunkMap := m.setHolder id { m.holders id with publishedFull := true }

def publishFull (m : ChunkMap) (id : Nat) : ChunkMap :=
  if (m.holders id).publishedFull then
    { m.setHolder id { m.holders id with fullStatusInitialized := true } with
      fullPublications := m.fullPublications ++ [((m.holders id).pos, id)] }
  else m

def beginSavePreparation (m : ChunkMap) (id : Nat) : ChunkMap :=
  if (m.holders id).lifecycle = .unloading then m.setHolder id { m.holders id with lifecycle := .preparing } else m

def endSavePreparation (m : ChunkMap) (id : Nat) : ChunkMap :=
  if (m.holders id).lifecycle = .preparing then m.setHolder id { m.holders id with lifecycle := .unloading } else m

end ChunkMap

/-- `none`: not a step of this phase, or the index fails. -/
def System.step (s : System) : Step → Option System
  | .publishStatus id => some { s with map := s.map.publishStatus id }
  | .publishFull id => some { s with map := s.map.publishFull id }
  | .beginSavePreparation id => some { s with map := s.map.beginSavePreparation id }
  | .endSavePreparation id => some { s with map := s.map.endSavePreparation id }
  | .finishUnload pos => some { s with map := { s.map with unloadingChunks := s.map.unloadingChunks.erase pos } }
  | .beginCommit changes =>
    match s.phase with
    | .idle => do
      let (changes, m) := s.map.mergeDeferredRevivals changes
      let rebuild := m.simulationChangesTickingSnapshot changes
      let (m, changed) ← m.prepareTickingReadinessDemotions changes
      some ⟨m, .committing changes (changes.map LevelChange.pos) (rebuild || changed)⟩
    | _ => none
  | .commitChange =>
    match s.phase with
    | .committing [] changed rebuild => some ⟨s.map, .reconciling changed rebuild⟩
    | .committing (change :: rest) changed rebuild =>
      some ⟨s.map.updateChunkLevel change, .committing rest changed rebuild⟩
    | _ => none
  | .reconcile =>
    match s.phase with
    | .reconciling changed rebuild => do
      let (dirty, m) ← s.map.reconcileTickingReadiness changed
      some ⟨m, .finishing dirty rebuild⟩
    | _ => none
  | .finish postProcessFails =>
    match s.phase with
    | .finishing dirty rebuild =>
      let (m, changed) := s.map.applyFinalReadiness postProcessFails dirty
      some ⟨if rebuild || changed then m.rebuildTickingChunkSnapshot else m, .idle⟩
    | _ => none

end Readiness

end Foton

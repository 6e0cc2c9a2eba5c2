import Foton.Lib.OrderedSet
import Foton.Tick.List
import Mathlib.Data.List.AList

/-!
# The world tick scheduler

The scheduler keeps, for each registered chunk, the deadline at the head of each
of its queues, and for the active chunks an index of these deadlines. A chunk's
container is named by a number; `containers` holds the containers of all chunks.
-/

namespace Foton

inductive TickKind where
  | block
  | fluid
  deriving DecidableEq, Repr

inductive ChunkTickContainerLifecycle where
  | proto
  | prePublication
  | registered
  | finalized
  deriving DecidableEq, Repr

/-- The container of one chunk, with the chunk's position. -/
structure ChunkTickContainer (T : TickKind → Type) where
  pos : ChunkPos
  lifecycle : ChunkTickContainerLifecycle
  lists : ∀ kind, TickList (T kind)

inductive TickSchedulerError where
  | alreadyRegistered (pos : ChunkPos)
  | missingContainer (pos : ChunkPos)
  | containerMismatch (pos : ChunkPos)
  deriving DecidableEq

/-- An error that is returned, or a panic. -/
inductive SchedulerFailure where
  | error (e : TickSchedulerError)
  | panicked (message : String)
  deriving DecidableEq

structure ActiveChunkRank where
  generation : Nat
  rank : Nat

structure RegisteredChunkTicks where
  container : Nat
  head : TickKind → Option Int
  active : Option ActiveChunkRank

namespace RegisteredChunkTicks

def setHead (r : RegisteredChunkTicks) (kind : TickKind) (triggerTick : Option Int) : RegisteredChunkTicks :=
  { r with head := Function.update r.head kind triggerTick }

def activeRank (r : RegisteredChunkTicks) (generation : Nat) : Option Nat :=
  match r.active with
  | some active => if active.generation = generation then some active.rank else none
  | none => none

variable {r : RegisteredChunkTicks} {kind : TickKind} {triggerTick : Option Int}

@[simp]
theorem setHead_self : (r.setHead kind triggerTick).head kind = triggerTick := Function.update_self _ _ _

theorem setHead_other {k : TickKind} (h : k ≠ kind) : (r.setHead kind triggerTick).head k = r.head k :=
  Function.update_of_ne h _ _

@[simp]
theorem setHead_activeRank (generation : Nat) : (r.setHead kind triggerTick).activeRank generation = r.activeRank generation :=
  rfl

theorem setHead_head : r.setHead kind (r.head kind) = r := by
  unfold setHead
  rw [Function.update_eq_self]

end RegisteredChunkTicks

abbrev Deadline : Type := Int ×ₗ PackedChunkPos

structure WorldTickSchedulerState where
  chunks : AList fun _ : ChunkPos => RegisteredChunkTicks
  activeDeadlines : TickKind → OrderedSet Deadline
  activeGeneration : Nat

/-- A due chunk. -/
structure ActiveTickContainer where
  pos : ChunkPos
  rank : Nat
  container : Nat
  deriving DecidableEq

structure TickHeadUpdate where
  pos : ChunkPos
  triggerTick : Option Int

namespace WorldTickSchedulerState

def new : WorldTickSchedulerState := ⟨∅, fun _ => .empty, 0⟩

def removeDeadline (s : WorldTickSchedulerState) (kind : TickKind) (head : Option Int) (pos : ChunkPos)
    (message : String) : Except SchedulerFailure WorldTickSchedulerState :=
  match head with
  | none => .ok s
  | some deadline =>
    let (deadlines, present) := (s.activeDeadlines kind).remove (toLex (deadline, .fromChunkPos pos))
    if present then .ok { s with activeDeadlines := Function.update s.activeDeadlines kind deadlines }
    else .error (.panicked message)

def insertDeadline (s : WorldTickSchedulerState) (kind : TickKind) (head : Option Int) (pos : ChunkPos)
    (message : String) : Except SchedulerFailure WorldTickSchedulerState :=
  match head with
  | none => .ok s
  | some deadline =>
    let (deadlines, added) := (s.activeDeadlines kind).insert (toLex (deadline, .fromChunkPos pos))
    if added then .ok { s with activeDeadlines := Function.update s.activeDeadlines kind deadlines }
    else .error (.panicked message)

def deactivate (chunks : AList fun _ : ChunkPos => RegisteredChunkTicks) (pos : ChunkPos) :
    AList fun _ : ChunkPos => RegisteredChunkTicks :=
  match chunks.lookup pos with
  | some registered => chunks.insert pos { registered with active := none }
  | none => chunks

/-- The generation is a `u64`; when it overflows, every stale rank is dropped. -/
def advanceActiveGeneration (s : WorldTickSchedulerState) : WorldTickSchedulerState :=
  if s.activeGeneration + 1 < 2 ^ 64 then { s with activeGeneration := s.activeGeneration + 1 }
  else
    { s with
      chunks := s.chunks.keys.foldl deactivate s.chunks
      activeGeneration := 1 }

def setHead (s : WorldTickSchedulerState) (pos : ChunkPos) (kind : TickKind) (triggerTick : Option Int) :
    Except SchedulerFailure WorldTickSchedulerState :=
  match s.chunks.lookup pos with
  | none => .error (.error (.missingContainer pos))
  | some registered =>
    let previous := registered.head kind
    if previous = triggerTick then .ok s
    else if (registered.activeRank s.activeGeneration).isSome then do
      let s ← s.removeDeadline kind previous pos "active scheduled-tick head was absent from its deadline index"
      let s := { s with chunks := s.chunks.insert pos (registered.setHead kind triggerTick) }
      s.insertDeadline kind triggerTick pos "active scheduled-tick deadline was already indexed"
    else .ok { s with chunks := s.chunks.insert pos (registered.setHead kind triggerTick) }

/-- The record of an unloaded chunk leaves the state. -/
def removeChunk (s : WorldTickSchedulerState) (pos : ChunkPos) (registered : RegisteredChunkTicks) :
    Except SchedulerFailure WorldTickSchedulerState :=
  let removed := { s with chunks := s.chunks.erase pos }
  if (registered.activeRank s.activeGeneration).isSome then do
    let s ← removed.removeDeadline .block (registered.head .block) pos
      "unloaded active block-tick head was absent from its deadline index"
    s.removeDeadline .fluid (registered.head .fluid) pos
      "unloaded active fluid-tick head was absent from its deadline index"
  else .ok removed

/-- One turn of the loop of `reconcile_active_chunks`. -/
def activate (s : WorldTickSchedulerState) (entry : ChunkPos × Nat) : Except SchedulerFailure WorldTickSchedulerState :=
  let (pos, rank) := entry
  match s.chunks.lookup pos with
  | none => .error (.error (.missingContainer pos))
  | some registered =>
    if (registered.activeRank s.activeGeneration).isSome then
      .error (.panicked "active scheduled-tick chunk appeared twice during reconciliation")
    else do
      let registered := { registered with active := some ⟨s.activeGeneration, rank⟩ }
      let s := { s with chunks := s.chunks.insert pos registered }
      let s ← s.insertDeadline .block (registered.head .block) pos
        "active block-tick chunk appeared twice during reconciliation"
      s.insertDeadline .fluid (registered.head .fluid) pos "active fluid-tick chunk appeared twice during reconciliation"

/-- One turn of the loop of `take_due`: the first deadline leaves the index. -/
def takeNext (s : WorldTickSchedulerState) (kind : TickKind) (currentTick : Int) :
    Except SchedulerFailure (Option (ActiveTickContainer × WorldTickSchedulerState)) :=
  match (s.activeDeadlines kind).popFirst with
  | none => .ok none
  | some (deadline, rest) =>
    if (ofLex deadline).1 > currentTick then .ok none
    else
      let pos := (ofLex deadline).2.toChunkPos
      match s.chunks.lookup pos with
      | none => .error (.panicked "active scheduled-tick deadline lost its registered container")
      | some registered =>
        if registered.head kind ≠ some (ofLex deadline).1 then
          .error (.panicked "active scheduled-tick deadline diverged from its container head")
        else
          match registered.activeRank s.activeGeneration with
          | none => .error (.panicked "inactive scheduled-tick container retained an active deadline")
          | some rank =>
            .ok (some (⟨pos, rank, registered.container⟩,
              { s with
                activeDeadlines := Function.update s.activeDeadlines kind rest
                chunks := s.chunks.insert pos (registered.setHead kind none) }))

theorem takeNext_shrinks {s s' : WorldTickSchedulerState} {kind : TickKind} {currentTick : Int} {a : ActiveTickContainer}
    (h : s.takeNext kind currentTick = .ok (some (a, s'))) :
    (s'.activeDeadlines kind).toList.length < (s.activeDeadlines kind).toList.length := by
  unfold takeNext at h
  cases hpop : (s.activeDeadlines kind).popFirst with
  | none => rw [hpop] at h; cases h
  | some pair =>
    have hlt : pair.2.toList.length < (s.activeDeadlines kind).toList.length := OrderedSet.popFirst_length hpop
    rw [hpop] at h
    dsimp only at h
    split at h
    · cases h
    · split at h
      · cases h
      · split at h
        · cases h
        · split at h
          · cases h
          · cases h
            dsimp only
            rw [Function.update_self]
            exact hlt

def takeDue (s : WorldTickSchedulerState) (kind : TickKind) (currentTick : Int) :
    Except SchedulerFailure (List ActiveTickContainer × WorldTickSchedulerState) :=
  match _h : s.takeNext kind currentTick with
  | .error e => .error e
  | .ok none => .ok ([], s)
  | .ok (some (a, s')) =>
    match s'.takeDue kind currentTick with
    | .error e => .error e
    | .ok (due, s'') => .ok (a :: due, s'')
termination_by (s.activeDeadlines kind).toList.length
decreasing_by exact takeNext_shrinks _h

end WorldTickSchedulerState

/-! ## Operations -/

/-- The scheduler and the containers of all chunks. -/
structure WorldTickScheduler (T : TickKind → Type) where
  containers : Nat → ChunkTickContainer T
  state : WorldTickSchedulerState

namespace WorldTickScheduler

variable {T : TickKind → Type}

def setLists (w : WorldTickScheduler T) (chunk : Nat) (lists : ∀ kind, TickList (T kind)) : WorldTickScheduler T :=
  { w with containers := Function.update w.containers chunk { w.containers chunk with lists := lists } }

def setLifecycle (w : WorldTickScheduler T) (chunk : Nat) (lifecycle : ChunkTickContainerLifecycle) :
    WorldTickScheduler T :=
  { w with containers := Function.update w.containers chunk { w.containers chunk with lifecycle := lifecycle } }

/-- The state after a step of the index that may fail. -/
def withState {α : Type} (w : WorldTickScheduler T) (a : α) :
    Except SchedulerFailure WorldTickSchedulerState → Except SchedulerFailure α × WorldTickScheduler T
  | .ok s => (.ok a, { w with state := s })
  | .error e => (.error e, w)

def registerChunk (w : WorldTickScheduler T) (chunk : Nat) : Except SchedulerFailure Unit × WorldTickScheduler T :=
  let container := w.containers chunk
  if container.lifecycle ≠ .prePublication ∨ (w.state.chunks.lookup container.pos).isSome then
    (.error (.error (.alreadyRegistered container.pos)), w)
  else
    let registered : RegisteredChunkTicks := ⟨chunk, fun kind => (container.lists kind).head, none⟩
    let w := { w with state := { w.state with chunks := w.state.chunks.insert container.pos registered } }
    (.ok (), w.setLifecycle chunk .registered)

/-- The chunk is looked up twice; under the phase lock the second finds the same container. -/
def unpackChunk (w : WorldTickScheduler T) (pos : ChunkPos) (currentTick : Int) :
    Except SchedulerFailure Unit × WorldTickScheduler T :=
  match w.state.chunks.lookup pos with
  | none => (.error (.error (.missingContainer pos)), w)
  | some registered =>
    let container := w.containers registered.container
    if container.lifecycle ≠ .registered then (.error (.error (.missingContainer pos)), w)
    else
      let lists := fun kind => (container.lists kind).unpack currentTick
      (w.setLists registered.container lists).withState () do
        let s ← w.state.setHead pos .block (lists .block).head
        s.setHead pos .fluid (lists .fluid).head

def unregisterChunk (w : WorldTickScheduler T) (pos : ChunkPos) : Except SchedulerFailure Unit × WorldTickScheduler T :=
  match w.state.chunks.lookup pos with
  | none => (.ok (), w)
  | some registered =>
    (w.setLifecycle registered.container .finalized).withState () (w.state.removeChunk pos registered)

def reconcileActiveChunks (w : WorldTickScheduler T) (activeChunks : List ChunkPos) :
    Except SchedulerFailure Unit × WorldTickScheduler T :=
  match activeChunks.find? fun pos => (w.state.chunks.lookup pos).isNone with
  | some pos => (.error (.error (.missingContainer pos)), w)
  | none =>
    let s := { w.state with activeDeadlines := fun _ => .empty }
    w.withState () (activeChunks.zipIdx.foldlM WorldTickSchedulerState.activate s.advanceActiveGeneration)

section
variable [∀ kind, TickKey (T kind)]

/-- The common body of `schedule_block` and `schedule_fluid`. -/
def schedule (w : WorldTickScheduler T) (kind : TickKind) (chunk : Nat) (tickType : T kind) (pos : BlockPos)
    (triggerTick : Int) (priority : TickPriority) (subTickOrder : Int) :
    Except SchedulerFailure Bool × WorldTickScheduler T :=
  let container := w.containers chunk
  let (list, added) := (container.lists kind).schedule tickType pos triggerTick priority subTickOrder
  let scheduled := w.setLists chunk (Function.update container.lists kind list)
  match container.lifecycle with
  | .prePublication => (.ok added, scheduled)
  | .finalized => (.error (.error (.missingContainer container.pos)), w)
  | _ =>
    if !added then (.ok false, w)
    else if list.head = (container.lists kind).head then (.ok true, scheduled)
    else
      match w.state.chunks.lookup container.pos with
      | none => (.error (.error (.missingContainer container.pos)), scheduled)
      | some registered =>
        if registered.container ≠ chunk then (.error (.error (.containerMismatch container.pos)), scheduled)
        else scheduled.withState true (w.state.setHead container.pos kind list.head)

def scheduleBlock (w : WorldTickScheduler T) := w.schedule .block

def scheduleFluid (w : WorldTickScheduler T) := w.schedule .fluid

end

end WorldTickScheduler

end Foton

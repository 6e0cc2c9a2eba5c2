import Foton.Chunk.Basic
import Foton.Lib.Traversal
import Foton.Section.Counts

/-!
# The collecting neighbor updater

Updates that are enqueued while an update runs wait in a buffer of their own. The
loop moves the buffer onto the stack, in reverse, before it takes the next update.
A `Vec` is the list of its elements from the last to the first.
-/

namespace Foton

inductive Direction where
  | down
  | up
  | north
  | south
  | west
  | east
  deriving DecidableEq, Repr

def Direction.offset : Direction → Int32 × Int32 × Int32
  | down => (0, -1, 0)
  | up => (0, 1, 0)
  | north => (0, 0, -1)
  | south => (0, 0, 1)
  | west => (-1, 0, 0)
  | east => (1, 0, 0)

def BlockPos.relative (pos : BlockPos) (direction : Direction) : BlockPos :=
  ⟨pos.x + direction.offset.1, pos.y + direction.offset.2.1, pos.z + direction.offset.2.2⟩

def updateOrder : List Direction := [.west, .east, .down, .up, .north, .south]

/-- A `&'static Block`. -/
structure BlockRef where
  index : Nat
  deriving DecidableEq

structure UpdateFlags where
  bits : UInt16
  deriving DecidableEq

structure ShapeUpdate where
  direction : Direction
  neighborState : BlockStateId
  pos : BlockPos
  neighborPos : BlockPos
  flags : UpdateFlags
  updateLimit : Int32
  deriving DecidableEq

inductive NeighborUpdate where
  | full (state : BlockStateId) (pos : BlockPos) (sourceBlock : BlockRef) (movedByPiston : Bool)
  | multi (sourcePos : BlockPos) (sourceBlock : BlockRef) (skipDirection : Option Direction) (index : Nat)
  | shape (update : ShapeUpdate)
  | simple (pos : BlockPos) (sourceBlock : BlockRef)
  deriving DecidableEq

/-! ## The collecting state -/

structure AddResult where
  shouldRun : Bool
  firstSkipped : Bool
  deriving DecidableEq

structure CollectingState (U : Type) where
  stack : List U
  addedThisLayer : List U
  count : Int32

namespace CollectingState

variable {U : Type}

def default : CollectingState U := ⟨[], [], 0⟩

def enqueue (s : CollectingState U) (maxChainedNeighborUpdates : Int32) (update : U) : AddResult × CollectingState U :=
  let runningAlready : Bool := 0 < s.count
  let tooManyUpdates : Bool := 0 ≤ maxChainedNeighborUpdates ∧ maxChainedNeighborUpdates ≤ s.count
  let s := { s with count := s.count + 1 }
  let s :=
    if tooManyUpdates then s
    else if runningAlready then { s with addedThisLayer := update :: s.addedThisLayer }
    else { s with stack := update :: s.stack }
  (⟨!runningAlready, tooManyUpdates ∧ s.count - 1 = maxChainedNeighborUpdates⟩, s)

theorem enqueue_eq (s : CollectingState U) (maxChainedNeighborUpdates : Int32) (update : U) :
    s.enqueue maxChainedNeighborUpdates update =
      (⟨!decide (0 < s.count), (0 ≤ maxChainedNeighborUpdates ∧ maxChainedNeighborUpdates ≤ s.count) ∧
          s.count + 1 - 1 = maxChainedNeighborUpdates⟩,
        if 0 ≤ maxChainedNeighborUpdates ∧ maxChainedNeighborUpdates ≤ s.count then { s with count := s.count + 1 }
        else if 0 < s.count then ⟨s.stack, update :: s.addedThisLayer, s.count + 1⟩
        else ⟨update :: s.stack, s.addedThisLayer, s.count + 1⟩) := by
  unfold enqueue
  by_cases htooMany : 0 ≤ maxChainedNeighborUpdates ∧ maxChainedNeighborUpdates ≤ s.count
  · simp [htooMany]
  · by_cases hrunning : 0 < s.count
    · simp [htooMany, hrunning]
    · simp [htooMany, hrunning]

def moveAdded : List U → List U → List U
  | [], stack => stack
  | update :: added, stack => moveAdded added (update :: stack)

theorem moveAdded_eq (added stack : List U) : moveAdded added stack = added.reverse ++ stack := by
  induction added generalizing stack with
  | nil => rfl
  | cons update added ih =>
    rw [moveAdded, ih, List.reverse_cons, List.append_assoc]
    rfl

def takeNext (s : CollectingState U) : Option U × CollectingState U :=
  match moveAdded s.addedThisLayer s.stack with
  | [] => (none, ⟨[], [], s.count⟩)
  | update :: stack => (some update, ⟨stack, [], s.count⟩)

def returnUnfinished (s : CollectingState U) (update : U) : CollectingState U := { s with stack := update :: s.stack }

def reset (_ : CollectingState U) : CollectingState U := ⟨[], [], 0⟩

end CollectingState

/-! ## Requests and unit steps -/

/-- A call of one of the updater's entry points. -/
inductive NeighborRequest where
  | shapeUpdate (update : ShapeUpdate)
  | neighborChanged (pos : BlockPos) (sourceBlock : BlockRef)
  | neighborChangedWithState (state : BlockStateId) (pos : BlockPos) (sourceBlock : BlockRef) (movedByPiston : Bool)
  | updateNeighborsAtExceptFromFacing (pos : BlockPos) (sourceBlock : BlockRef) (skipDirection : Option Direction)
  deriving DecidableEq

namespace NeighborRequest

def pos : NeighborRequest → BlockPos
  | shapeUpdate update => update.pos
  | neighborChanged pos _ => pos
  | neighborChangedWithState _ pos _ _ => pos
  | updateNeighborsAtExceptFromFacing pos _ _ => pos

def update : NeighborRequest → NeighborUpdate
  | shapeUpdate update => .shape update
  | neighborChanged pos sourceBlock => .simple pos sourceBlock
  | neighborChangedWithState state pos sourceBlock movedByPiston => .full state pos sourceBlock movedByPiston
  | updateNeighborsAtExceptFromFacing pos sourceBlock skipDirection =>
    .multi pos sourceBlock skipDirection (if skipDirection = updateOrder[0]? then 1 else 0)

end NeighborRequest

/-- A call into the world. The state of a neighbor is read when it is called. -/
inductive UnitStep where
  | full (state : BlockStateId) (pos : BlockPos) (sourceBlock : BlockRef) (movedByPiston : Bool)
  | neighbor (pos : BlockPos) (sourceBlock : BlockRef)
  | shape (update : ShapeUpdate)
  deriving DecidableEq

/-- The block behaviors. They may come back to the updater. -/
structure NeighborWorld (W : Type) where
  getBlockState : W → BlockPos → BlockStateId
  executeNeighborUpdate : BlockStateId → BlockPos → BlockRef → Bool → W → Reaction W NeighborRequest
  executeNeighborShapeUpdate : Direction → BlockPos → BlockPos → BlockStateId → UpdateFlags → Int32 → W →
    Reaction W NeighborRequest

/-! ## The updater -/

/-- The updater in its world, with the calls and the error reports so far. -/
structure UpdaterState (W : Type) where
  world : W
  state : CollectingState NeighborUpdate
  executed : List UnitStep
  reported : List BlockPos

inductive UpdatePanic where
  | behavior
  | indexOutOfBounds
  deriving DecidableEq

inductive UpdaterOutcome (W : Type) where
  | returned (u : UpdaterState W)
  | panicked (reason : UpdatePanic) (u : UpdaterState W)

namespace UpdaterState

variable {W : Type} (env : NeighborWorld W) (maxChainedNeighborUpdates : Int32)

/-- `add` is the entry point of the updater, which a reaction may call. -/
def runReaction (add : NeighborRequest → UpdaterState W → Option (UpdaterOutcome W)) :
    Reaction W NeighborRequest → UpdaterState W → Option (UpdaterOutcome W)
  | .finish world, u => some (.returned { u with world := world })
  | .panic world, u => some (.panicked .behavior { u with world := world })
  | .enqueue world request resume, u =>
    match add request { u with world := world } with
    | some (.returned u) => runReaction add (resume u.world) u
    | other => other

def call (add : NeighborRequest → UpdaterState W → Option (UpdaterOutcome W)) (step : UnitStep)
    (reaction : Reaction W NeighborRequest) (u : UpdaterState W) : Option (UpdaterOutcome W) :=
  runReaction add reaction { u with executed := u.executed ++ [step] }

/-- The update afterwards, and whether it is unfinished. -/
def runNext (add : NeighborRequest → UpdaterState W → Option (UpdaterOutcome W)) (u : UpdaterState W) :
    NeighborUpdate → Option (UpdaterOutcome W) × NeighborUpdate × Bool
  | .full state pos sourceBlock movedByPiston =>
    (call add (.full state pos sourceBlock movedByPiston)
      (env.executeNeighborUpdate state pos sourceBlock movedByPiston u.world) u, .full state pos sourceBlock movedByPiston, false)
  | .multi sourcePos sourceBlock skipDirection index =>
    match updateOrder[index]? with
    | none => (some (.panicked .indexOutOfBounds u), .multi sourcePos sourceBlock skipDirection index, false)
    | some direction =>
      let index := index + 1
      let neighborPos := sourcePos.relative direction
      let state := env.getBlockState u.world neighborPos
      let outcome := call add (.neighbor neighborPos sourceBlock)
        (env.executeNeighborUpdate state neighborPos sourceBlock false u.world) u
      let index := if index < updateOrder.length ∧ updateOrder[index]? = skipDirection then index + 1 else index
      (outcome, .multi sourcePos sourceBlock skipDirection index, index < updateOrder.length)
  | .shape update =>
    (call add (.shape update) (env.executeNeighborShapeUpdate update.direction update.pos update.neighborPos
      update.neighborState update.flags update.updateLimit u.world) u, .shape update, false)
  | .simple pos sourceBlock =>
    let state := env.getBlockState u.world pos
    (call add (.neighbor pos sourceBlock) (env.executeNeighborUpdate state pos sourceBlock false u.world) u,
      .simple pos sourceBlock, false)

def addAndRun (run : UpdaterState W → Option (UpdaterOutcome W)) (pos : BlockPos) (update : NeighborUpdate)
    (u : UpdaterState W) : Option (UpdaterOutcome W) :=
  let (result, state) := u.state.enqueue maxChainedNeighborUpdates update
  let u := { u with state := state, reported := if result.firstSkipped then u.reported ++ [pos] else u.reported }
  if result.shouldRun then run u else some (.returned u)

def request (run : UpdaterState W → Option (UpdaterOutcome W)) (r : NeighborRequest) (u : UpdaterState W) :
    Option (UpdaterOutcome W) := addAndRun maxChainedNeighborUpdates run r.pos r.update u

/-- The loop; `none` when the fuel is used up. A panic unwinds through the guard, which resets the state. -/
def runUpdates : Nat → UpdaterState W → Option (UpdaterOutcome W)
  | 0, _ => none
  | fuel + 1, u =>
    match u.state.takeNext with
    | (none, state) => some (.returned { u with state := state.reset })
    | (some update, state) =>
      match runNext env (request maxChainedNeighborUpdates (runUpdates fuel)) { u with state := state } update with
      | (some (.returned u), update, unfinished) =>
        runUpdates fuel (if unfinished then { u with state := u.state.returnUnfinished update } else u)
      | (some (.panicked reason u), _, _) => some (.panicked reason { u with state := u.state.reset })
      | (none, _, _) => none

end UpdaterState

end Foton

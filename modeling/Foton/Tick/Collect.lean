import Foton.Tick.Scheduler

/-!
# Collecting a batch

Only queue heads compete across chunks. A chunk that has won is drained while its
next head is not later than the best competitor.
-/

namespace Foton

structure ReadyContainer where
  pos : ChunkPos
  rank : Nat
  container : Nat
  priority : TickPriority
  subTickOrder : Int
  dirtyReported : Bool

namespace ReadyContainer

def order (r : ReadyContainer) : (TickPriority ×ₗ Int) ×ₗ Nat :=
  toLex (intraTickDrainOrder r.priority r.subTickOrder, r.rank)

def new {α : Type} (active : ActiveTickContainer) (tick : ScheduledTick α) (dirtyReported : Bool) : ReadyContainer :=
  ⟨active.pos, active.rank, active.container, tick.priority, tick.subTickOrder, dirtyReported⟩

def refresh {α : Type} (r : ReadyContainer) (tick : ScheduledTick α) : ReadyContainer :=
  { r with priority := tick.priority, subTickOrder := tick.subTickOrder }

end ReadyContainer

structure ScheduledTickBatch (α : Type) where
  ticks : List (ScheduledTick α)
  changedContainers : List Nat

variable {T : TickKind → Type}

/-- The state of the loop of `collect_registered_ticks`. -/
structure Collection (T : TickKind → Type) (kind : TickKind) where
  containers : Nat → ChunkTickContainer T
  ready : PriorityQueue ReadyContainer.order
  headUpdates : List TickHeadUpdate
  ticks : List (ScheduledTick (T kind))
  changedContainers : List Nat

namespace Collection

variable {kind : TickKind}

/-- The queue of a container. -/
def list (c : Collection T kind) (container : Nat) : TickList (T kind) := (c.containers container).lists kind

def setList (c : Collection T kind) (container : Nat) (list : TickList (T kind)) : Collection T kind :=
  let lists := Function.update (c.containers container).lists kind list
  { c with containers := Function.update c.containers container { c.containers container with lists := lists } }

theorem setList_self (c : Collection T kind) (container : Nat) (list : TickList (T kind)) :
    (c.setList container list).list container = list := by
  unfold Collection.list setList
  dsimp only
  rw [Function.update_self]
  exact Function.update_self _ _ _

theorem setList_other (c : Collection T kind) {container other : Nat} {list : TickList (T kind)} (h : other ≠ container) :
    (c.setList container list).list other = c.list other := by
  unfold Collection.list setList
  dsimp only
  rw [Function.update_of_ne h]

def updateHead (c : Collection T kind) (pos : ChunkPos) (triggerTick : Option Int) : Collection T kind :=
  { c with headUpdates := c.headUpdates ++ [⟨pos, triggerTick⟩] }

/-- One turn of the loop of `prepare_ready_containers`. -/
def prepare (currentTick : Int) (c : Collection T kind) (active : ActiveTickContainer) :
    Except SchedulerFailure (Collection T kind) :=
  if (c.containers active.container).lifecycle ≠ .registered then
    .error (.panicked "active scheduled-tick container was not registered")
  else
    match (c.list active.container).peekReady currentTick with
    | some tick => .ok { c with ready := c.ready.push (.new active tick false) }
    | none => .ok (c.updateHead active.pos (c.list active.container).head)

section
variable [∀ kind, TickKey (T kind)]

/-- The inner loop: it stays with the container until a competitor is earlier. -/
def drain (competitor : Option (TickPriority ×ₗ Int)) (currentTick : Int) :
    Nat → TickList (T kind) → List (ScheduledTick (T kind)) × TickList (T kind)
  | 0, list => ([], list)
  | room + 1, list =>
    match list.peekReady currentTick with
    | none => ([], list)
    | some nextTick =>
      if competitor.any fun order => order < nextTick.intraOrder then ([], list)
      else
        match list.popReady currentTick with
        | none => ([], list)
        | some (tick, list) =>
          let (ticks, list) := drain competitor currentTick room list
          (tick :: ticks, list)

/-- One turn of the outer loop; `none` when it ends. -/
def turn (currentTick : Int) (maxTicks : Nat) (c : Collection T kind) :
    Except SchedulerFailure (Option (Collection T kind)) :=
  if maxTicks ≤ c.ticks.length then .ok none
  else
    match c.ready.pop with
    | none => .ok none
    | some (r, ready) =>
      if (c.containers r.container).lifecycle ≠ .registered then
        .error (.panicked "ready scheduled-tick container was not registered")
      else
        match (c.list r.container).popReady currentTick with
        | none => .ok (some ({ c with ready := ready }.updateHead r.pos (c.list r.container).head))
        | some (tick, list) =>
          let changedContainers := if r.dirtyReported then c.changedContainers else c.changedContainers ++ [r.rank]
          let r := { r with dirtyReported := true }
          let competitor := ready.peek.map fun other => intraTickDrainOrder other.priority other.subTickOrder
          let (more, list) := drain competitor currentTick (maxTicks - (c.ticks.length + 1)) list
          let ticks := c.ticks ++ tick :: more
          let c : Collection T kind :=
            { c with ready := ready, ticks := ticks, changedContainers := changedContainers }.setList r.container list
          match list.peek with
          | some nextTick =>
            if ticks.length < maxTicks ∧ nextTick.triggerTick ≤ currentTick then
              .ok (some { c with ready := ready.push (r.refresh nextTick) })
            else .ok (some (c.updateHead r.pos (some nextTick.triggerTick)))
          | none => .ok (some (c.updateHead r.pos none))

theorem turn_decreases {currentTick : Int} {maxTicks : Nat} {c c' : Collection T kind}
    (h : c.turn currentTick maxTicks = .ok (some c')) :
    Prod.Lex (· < ·) (· < ·) (maxTicks - c'.ticks.length, c'.ready.toList.length)
      (maxTicks - c.ticks.length, c.ready.toList.length) := by
  unfold turn at h
  split at h
  · cases h
  · rename_i hroom
    have hgrow : ∀ more : List (ScheduledTick (T kind)), ∀ tick,
        maxTicks - (c.ticks ++ tick :: more).length < maxTicks - c.ticks.length := by
      intro more tick
      rw [List.length_append, List.length_cons]
      omega
    split at h
    · cases h
    · rename_i r ready hpop
      split at h
      · cases h
      · split at h
        · cases h
          exact Prod.Lex.right _ (PriorityQueue.pop_length hpop)
        · dsimp only at h
          split at h
          · split at h
            · cases h
              exact Prod.Lex.left _ _ (hgrow _ _)
            · cases h
              exact Prod.Lex.left _ _ (hgrow _ _)
          · cases h
            exact Prod.Lex.left _ _ (hgrow _ _)

def run (currentTick : Int) (maxTicks : Nat) (c : Collection T kind) : Except SchedulerFailure (Collection T kind) :=
  match _h : c.turn currentTick maxTicks with
  | .error e => .error e
  | .ok none => .ok c
  | .ok (some c') => c'.run currentTick maxTicks
termination_by (maxTicks - c.ticks.length, c.ready.toList.length)
decreasing_by exact turn_decreases _h

end

/-- The containers left on the heap. Their order does not matter. -/
def finish (c : Collection T kind) : List TickHeadUpdate :=
  c.headUpdates ++ c.ready.toList.map fun r => ⟨r.pos, (c.list r.container).head⟩

end Collection

variable [∀ kind, TickKey (T kind)]

def collectRegisteredTicks (kind : TickKind) (containers : Nat → ChunkTickContainer T) (due : List ActiveTickContainer)
    (currentTick : Int) (maxTicks : Nat) : Except SchedulerFailure (Collection T kind) := do
  let c ← due.foldlM (Collection.prepare currentTick) ⟨containers, .empty, [], [], []⟩
  c.run currentTick maxTicks

namespace WorldTickScheduler

def collectTicks (w : WorldTickScheduler T) (kind : TickKind) (currentTick : Int) (maxTicks : Nat) :
    Except SchedulerFailure (ScheduledTickBatch (T kind)) × WorldTickScheduler T :=
  if maxTicks = 0 then (.ok ⟨[], []⟩, w)
  else
    match w.state.takeDue kind currentTick with
    | .error e => (.error e, w)
    | .ok (due, s) =>
      if due = [] then (.ok ⟨[], []⟩, { w with state := s })
      else
        match collectRegisteredTicks kind w.containers due currentTick maxTicks with
        | .error e => (.error e, w)
        | .ok c =>
          { w with containers := c.containers }.withState ⟨c.ticks, c.changedContainers⟩ <|
            c.finish.foldlM (fun s (u : TickHeadUpdate) => s.setHead u.pos kind u.triggerTick) s

def beginTick (w : WorldTickScheduler T) := w.collectTicks .block

def collectFluidTicks (w : WorldTickScheduler T) := w.collectTicks .fluid

end WorldTickScheduler

/-! ## Runs -/

inductive SchedulerOp (T : TickKind → Type) where
  | registerChunk (chunk : Nat)
  | unpackChunk (pos : ChunkPos) (currentTick : Int)
  | unregisterChunk (pos : ChunkPos)
  | reconcileActiveChunks (activeChunks : List ChunkPos)
  | scheduleBlock (chunk : Nat) (block : T .block) (pos : BlockPos) (triggerTick : Int) (priority : TickPriority)
      (subTickOrder : Int)
  | scheduleFluid (chunk : Nat) (fluid : T .fluid) (pos : BlockPos) (triggerTick : Int) (priority : TickPriority)
      (subTickOrder : Int)
  | beginTick (currentTick : Int) (maxTicks : Nat)
  | collectFluidTicks (currentTick : Int) (maxTicks : Nat)

/-- How an operation ends, its value left out. -/
def WorldTickScheduler.outcome {α : Type} : Except SchedulerFailure α → Option SchedulerFailure
  | .ok _ => none
  | .error e => some e

def WorldTickScheduler.exec (w : WorldTickScheduler T) :
    SchedulerOp T → Option SchedulerFailure × WorldTickScheduler T
  | .registerChunk chunk => (w.registerChunk chunk).map outcome id
  | .unpackChunk pos currentTick => (w.unpackChunk pos currentTick).map outcome id
  | .unregisterChunk pos => (w.unregisterChunk pos).map outcome id
  | .reconcileActiveChunks activeChunks => (w.reconcileActiveChunks activeChunks).map outcome id
  | .scheduleBlock chunk block pos triggerTick priority subTickOrder =>
    (w.scheduleBlock chunk block pos triggerTick priority subTickOrder).map outcome id
  | .scheduleFluid chunk fluid pos triggerTick priority subTickOrder =>
    (w.scheduleFluid chunk fluid pos triggerTick priority subTickOrder).map outcome id
  | .beginTick currentTick maxTicks => (w.beginTick currentTick maxTicks).map outcome id
  | .collectFluidTicks currentTick maxTicks => (w.collectFluidTicks currentTick maxTicks).map outcome id

end Foton

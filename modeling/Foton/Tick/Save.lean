import Foton.Tick.Batch

/-!
# Saving during a tick

The tick thread collects the block ticks, publishes and runs them, then does the
same with the fluid ticks. A save of one chunk packs the chunk's container, then
reads the published block batch and then the fluid batch. Each of these is a step
of its own, and they interleave in any way.
-/

namespace Foton

/-- The ticks that are being run. The cursor is past the ones that have started. -/
structure ScheduledTickRunBatch (α : Type) where
  ticks : List (ScheduledTick α)
  nextIndex : Nat

namespace ScheduledTickRunBatch

variable {α : Type}

def new (ticks : List (ScheduledTick α)) : ScheduledTickRunBatch α := ⟨ticks, 0⟩

/-- `none` when the assertion fails. -/
def start (b : ScheduledTickRunBatch α) (index : Nat) : Option (ScheduledTickRunBatch α) :=
  if index < b.ticks.length then some { b with nextIndex := index + 1 } else none

def notYetStarted (b : ScheduledTickRunBatch α) : List (ScheduledTick α) := b.ticks.drop b.nextIndex

end ScheduledTickRunBatch

/-- The kind of ticks that is collected after `kind`. -/
def TickKind.next : TickKind → TickKind
  | block => fluid
  | fluid => block

/-- Where the tick thread is. The index is that of its loop over the batch. -/
inductive TickPhase where
  | waiting (kind : TickKind)
  | collected (kind : TickKind)
  | running (kind : TickKind) (index : Nat)
  deriving DecidableEq

/-- How far `scheduled_tick_snapshot` has come. -/
inductive SaveStage where
  | idle
  | packed
  | blockRead
  | done
  deriving DecidableEq

namespace SaveStage

/-- The container has been packed and the batch of `kind` is still to be read. -/
def unread : SaveStage → TickKind → Bool
  | packed, _ => true
  | blockRead, .fluid => true
  | _, _ => false

/-- The stage after the batch of `kind` is read. -/
def read : SaveStage → TickKind → Option SaveStage
  | packed, .block => some blockRead
  | blockRead, .fluid => some done
  | _, _ => none

variable {stage stage' : SaveStage} {kind : TickKind}

theorem unread_of_read (h : stage.read kind = some stage') : stage.unread kind = true := by
  cases stage <;> cases kind <;> first | rfl | cases h

theorem read_read (h : stage.read kind = some stage') : stage'.unread kind = false := by
  cases stage <;> cases kind <;> cases h <;> rfl

theorem unread_read (h : stage.read kind = some stage') {k : TickKind} (hk : k ≠ kind) :
    stage'.unread k = stage.unread k := by
  cases stage <;> cases kind <;> cases h <;> cases k <;> first | rfl | exact absurd rfl hk

end SaveStage

structure TickWorld (T : TickKind → Type) where
  scheduler : WorldTickScheduler T
  phase : TickPhase
  readyTicks : ∀ kind, List (ScheduledTick (T kind))
  scheduledTicksThisTick : ∀ kind, Option (ScheduledTickRunBatch (T kind))
  stage : SaveStage
  snapshot : ∀ kind, List (SavedTick (T kind))

inductive TickAction (T : TickKind → Type) where
  | collect (kind : TickKind) (currentTick : Int) (maxTicks : Nat)
  | publish (kind : TickKind)
  | start (kind : TickKind)
  | finish (kind : TickKind)
  | schedule (kind : TickKind) (container : Nat) (tickType : T kind) (pos : BlockPos) (triggerTick : Int)
      (priority : TickPriority) (subTickOrder : Int)
  | pack (currentTick : Int)
  | readBatch (kind : TickKind)

def TickAction.IsSchedule {T : TickKind → Type} : TickAction T → Prop
  | .schedule _ _ _ _ _ _ _ => True
  | _ => False

namespace TickWorld

variable {T : TickKind → Type}

/-- `pending_block_ticks_in_chunk` and `pending_fluid_ticks_in_chunk`. -/
def pendingTicksInChunk (w : TickWorld T) (kind : TickKind) (pos : ChunkPos) : List (ScheduledTick (T kind)) :=
  match w.scheduledTicksThisTick kind with
  | none => []
  | some batch => batch.notYetStarted.filter fun tick => ChunkPos.fromBlockPos tick.pos = pos

variable [∀ kind, TickKey (T kind)]

def collect (w : TickWorld T) (kind : TickKind) (currentTick : Int) (maxTicks : Nat) : Option (TickWorld T) :=
  if w.phase = .waiting kind then
    match w.scheduler.collectTicks kind currentTick maxTicks with
    | (.ok batch, scheduler) =>
      some { w with
        scheduler := scheduler
        readyTicks := Function.update w.readyTicks kind batch.ticks
        phase := .collected kind }
    | (.error _, _) => none
  else none

/-- `begin_scheduled_block_tick_batch`. An empty selection is not published. -/
def publish (w : TickWorld T) (kind : TickKind) : Option (TickWorld T) :=
  if w.phase = .collected kind then
    if w.readyTicks kind = [] then some { w with phase := .waiting kind.next }
    else if (w.scheduledTicksThisTick kind).isSome then none
    else
      some { w with
        scheduledTicksThisTick := Function.update w.scheduledTicksThisTick kind (some (.new (w.readyTicks kind)))
        readyTicks := Function.update w.readyTicks kind []
        phase := .running kind 0 }
  else none

def start (w : TickWorld T) (kind : TickKind) : Option (TickWorld T) :=
  match w.phase, w.scheduledTicksThisTick kind with
  | .running k index, some batch =>
    if k = kind then
      (batch.start index).map fun batch =>
        { w with
          scheduledTicksThisTick := Function.update w.scheduledTicksThisTick kind (some batch)
          phase := .running kind (index + 1) }
    else none
  | _, _ => none

/-- `end_scheduled_block_tick_batch`, once the loop over the batch is through. -/
def finish (w : TickWorld T) (kind : TickKind) : Option (TickWorld T) :=
  match w.phase, w.scheduledTicksThisTick kind with
  | .running k index, some batch =>
    if k = kind ∧ index = batch.ticks.length then
      some { w with
        scheduledTicksThisTick := Function.update w.scheduledTicksThisTick kind none
        phase := .waiting kind.next }
    else none
  | _, _ => none

/-- A tick goes to the container of the chunk that its position is in. -/
def schedule (w : TickWorld T) (kind : TickKind) (container : Nat) (tickType : T kind) (pos : BlockPos)
    (triggerTick : Int) (priority : TickPriority) (subTickOrder : Int) : Option (TickWorld T) :=
  if ChunkPos.fromBlockPos pos = (w.scheduler.containers container).pos then
    some { w with scheduler := (w.scheduler.schedule kind container tickType pos triggerTick priority subTickOrder).2 }
  else none

/-- `ChunkTickContainer::snapshot`: both queues are packed under one lock. -/
def pack (w : TickWorld T) (chunk : Nat) (currentTick : Int) : Option (TickWorld T) :=
  let container := w.scheduler.containers chunk
  if w.stage = .idle ∧ container.lifecycle ≠ .finalized then
    some { w with snapshot := fun kind => (container.lists kind).pack currentTick, stage := .packed }
  else none

/-- The ticks that have not started are added with delay 0. -/
def readBatch (w : TickWorld T) (chunk : Nat) (kind : TickKind) : Option (TickWorld T) :=
  (w.stage.read kind).map fun stage =>
    let pending := (w.pendingTicksInChunk kind (w.scheduler.containers chunk).pos).map fun tick =>
      (⟨tick.tickType, tick.pos, 0, tick.priority⟩ : SavedTick (T kind))
    { w with snapshot := Function.update w.snapshot kind (w.snapshot kind ++ pending), stage := stage }

/-- A step of the tick thread, of a thread that schedules a tick, or of the save of `chunk`. -/
def exec (chunk : Nat) (w : TickWorld T) : TickAction T → Option (TickWorld T)
  | .collect kind currentTick maxTicks => w.collect kind currentTick maxTicks
  | .publish kind => w.publish kind
  | .start kind => w.start kind
  | .finish kind => w.finish kind
  | .schedule kind container tickType pos triggerTick priority subTickOrder =>
    w.schedule kind container tickType pos triggerTick priority subTickOrder
  | .pack currentTick => w.pack chunk currentTick
  | .readBatch kind => w.readBatch chunk kind

end TickWorld

end Foton

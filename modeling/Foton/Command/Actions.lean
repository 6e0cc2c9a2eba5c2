import Foton.Command.Queue

/-!
# The command queue under arbitrary actions

An action that is executed may call the queue as it likes: it queues, discards,
suspends, and even runs, polls or cancels the queue it is executed by. A state
between two calls says which actions are being executed.
-/

namespace Foton.ActionQueue

inductive ExecutionStop where
  | completed
  | suspended
  | commandLimit
  | queueOverflow
  deriving DecidableEq

structure Frame where
  depth : Nat
  discard : FrameDiscard
  deriving DecidableEq

/-- An action, for what the queue does with it. -/
inductive EntryAction where
  | custom (runsAfterCommandLimit : Bool)
  | suspend
  | resume (action : EntryAction)
  deriving DecidableEq

def EntryAction.runsAfterCommandLimit : EntryAction → Bool
  | custom runsAfterCommandLimit => runsAfterCommandLimit
  | suspend => true
  | resume _ => true

/-- Every entry that is ever queued has its own number. -/
structure CommandQueueEntry where
  id : Nat
  frame : Frame
  action : EntryAction

/-- A suspension has the number of the entry that activated it. -/
structure ActiveSuspension where
  frame : Frame
  id : Nat

inductive CommandSuspensionPoll where
  | pending
  | ready (action : EntryAction)
  deriving DecidableEq

structure State where
  commandLimit : Nat
  queueLimit : Nat
  commandQuota : Nat
  queueOverflow : Bool
  commandQueue : List CommandQueueEntry
  newTopCommands : List CommandQueueEntry
  suspension : Option ActiveSuspension
  currentFrameDepth : Nat
  /-- The actions on the call stack, the innermost first. -/
  executing : List Nat
  lastStop : Option ExecutionStop
  nextEntry : Nat
  executed : List Nat
  cancelled : List Nat
  activated : List Nat
  /-- The suspensions that were polled to `ready`, and those that were cancelled when active. -/
  ready : List Nat
  cancelledSuspensions : List Nat
  /-- An action activated a suspension beside another one. -/
  panicked : Bool
  dropped : Bool

namespace State

def new (commandLimit queueLimit : Nat) : State where
  commandLimit := max commandLimit 1
  queueLimit := queueLimit
  commandQuota := max commandLimit 1
  queueOverflow := false
  commandQueue := []
  newTopCommands := []
  suspension := none
  currentFrameDepth := 0
  executing := []
  lastStop := none
  nextEntry := 0
  executed := []
  cancelled := []
  activated := []
  ready := []
  cancelledSuspensions := []
  panicked := false
  dropped := false

/-! ## Queueing and discarding -/

def createTopFrame (s : State) : Frame :=
  if s.currentFrameDepth = 0 then ⟨0, .all⟩ else ⟨s.currentFrameDepth + 1, .atOrAbove (s.currentFrameDepth + 1)⟩

def cancelCommandQueue (s : State) : State :=
  { s with commandQueue := [], cancelled := s.cancelled ++ s.commandQueue.map CommandQueueEntry.id }

def cancelNewTopCommands (s : State) : State :=
  { s with newTopCommands := [], cancelled := s.cancelled ++ s.newTopCommands.map CommandQueueEntry.id }

/-- A queue that has grown too long is cancelled. -/
def checkOverflow (s : State) : State :=
  if s.queueLimit < s.newTopCommands.length + s.commandQueue.length then
    { s with queueOverflow := true }.cancelNewTopCommands.cancelCommandQueue
  else s

def queueEntry (s : State) (frame : Frame) (action : EntryAction) : State :=
  let s := s.checkOverflow
  let entry : CommandQueueEntry := ⟨s.nextEntry, frame, action⟩
  let s : State := { s with nextEntry := s.nextEntry + 1 }
  if s.queueOverflow then { s with cancelled := s.cancelled ++ [entry.id] }
  else { s with newTopCommands := s.newTopCommands ++ [entry] }

/-- The staged commands are popped from the back and pushed to the front of the queue. -/
def pushNewCommands (s : State) : State :=
  { s with
    commandQueue := s.newTopCommands.reverse.foldl (fun queue command => command :: queue) s.commandQueue
    newTopCommands := [] }

def discard (s : State) (frame : Frame) : State :=
  match frame.discard with
  | .all => s.cancelCommandQueue
  | .atOrAbove depth =>
    { s with
      commandQueue := s.commandQueue.dropWhile fun entry => depth ≤ entry.frame.depth
      cancelled := s.cancelled ++
        (s.commandQueue.takeWhile fun entry => depth ≤ entry.frame.depth).map CommandQueueEntry.id }

/-! ## Running -/

/-- `run` returns. -/
def stop (s : State) (stop : ExecutionStop) : State := { s with currentFrameDepth := 0, lastStop := some stop }

/-- What the loop checks after an action: whether it stops. -/
def stops (s : State) : Option ExecutionStop :=
  if s.queueOverflow then some .queueOverflow else if s.suspension.isSome then some .suspended else none

/-- A suspending action is executed at once, any other one is called and goes on by itself. -/
def execute (s : State) (entry : CommandQueueEntry) : EntryAction → State
  | .custom _ => { s with executing := entry.id :: s.executing }
  | .suspend =>
    if s.suspension.isSome then { s with panicked := true }
    else
      let s : State := { s with suspension := some ⟨entry.frame, entry.id⟩, activated := s.activated ++ [entry.id] }
      s.stop (if s.queueOverflow then .queueOverflow else .suspended)
  | .resume action => s.execute entry action

/-- One turn of the loop of `run`. -/
def turn (s : State) : State :=
  if s.commandQuota = 0 ∧ ¬(s.commandQueue.head?.any fun entry => entry.action.runsAfterCommandLimit) then s.stop .commandLimit
  else
    match s.commandQueue with
    | [] => s.stop .completed
    | entry :: rest =>
      { s with
        commandQueue := rest
        currentFrameDepth := entry.frame.depth
        executed := s.executed ++ [entry.id] }.execute entry entry.action

def run (s : State) : State :=
  if s.suspension.isSome then { s with lastStop := some .suspended }
  else if s.queueOverflow then { s with lastStop := some .queueOverflow }
  else s.pushNewCommands.turn

/-- The innermost action returns to the loop that called it. -/
def returnAction (s : State) : State :=
  let s : State := { s with executing := s.executing.tail }
  match s.stops with
  | some stop => s.stop stop
  | none => s.pushNewCommands.turn

def pollSuspension (s : State) (poll : CommandSuspensionPoll) : State :=
  match s.suspension with
  | none => s.run
  | some active =>
    match poll with
    | .pending => { s with lastStop := some .suspended }
    | .ready action =>
      ({ s with suspension := none, ready := s.ready ++ [active.id] }.queueEntry active.frame (.resume action)).run

def cancel (s : State) : State :=
  let s : State := { s with
    suspension := none
    cancelledSuspensions := s.cancelledSuspensions ++ s.suspension.toList.map ActiveSuspension.id }
  { s.cancelCommandQueue.cancelNewTopCommands with queueOverflow := false, currentFrameDepth := 0 }

/-! ## Calls -/

/-- A call of the queue's owner or of the innermost action that is being executed. -/
inductive Op where
  | queueInitial (runsAfterCommandLimit : Bool)
  | queueNext (frame : Frame) (action : EntryAction)
  | discard (frame : Frame)
  | incrementCost
  | run
  | pollSuspension (poll : CommandSuspensionPoll)
  | cancel
  | returnAction
  | drop
  deriving DecidableEq

/-- Only the owner drops the queue, and only when no action is being executed. -/
def exec (s : State) (op : Op) : Option State :=
  if s.panicked ∨ s.dropped then none
  else
    match op with
    | .queueInitial runsAfterCommandLimit => some (s.queueEntry s.createTopFrame (.custom runsAfterCommandLimit))
    | .queueNext frame action => some (s.queueEntry frame action)
    | .discard frame => some (s.discard frame)
    | .incrementCost => some { s with commandQuota := s.commandQuota - 1 }
    | .run => some s.run
    | .pollSuspension poll => some (s.pollSuspension poll)
    | .cancel => some s.cancel
    | .returnAction => if s.executing = [] then none else some s.returnAction
    | .drop => if s.executing = [] then some { s.cancel with dropped := true } else none

def Step (s : State) (op : Op) (s' : State) : Prop := s.exec op = some s'

end State

end Foton.ActionQueue

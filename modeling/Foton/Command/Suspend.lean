import Foton.Command.Queue

/-!
# The command queue with suspended commands

A command whose result is produced later suspends the queue; the owner polls it
until the result is ready. Suspending and resuming go on after the command
limit. The queue keeps a record of the actions it executed and of the most
entries it held.
-/

namespace Foton

variable {T : CommandTypes} {U : Type}

inductive SuspensionPoll (T : CommandTypes) (U : Type) where
  | pending (suspension : U)
  | ready (result : Except T.SyntaxError Int)

/-- What the parts of commands do, with executors that suspend. -/
structure SuspendingRuntime (T : CommandTypes) (U : Type) extends CommandRuntime T where
  /-- A suspended executor is scheduled like a standard one. -/
  suspended : T.StandardExecutor → Option (T.Source → T.World → Except T.SyntaxError U × T.World)
  poll : U → T.World → SuspensionPoll T U × T.World
  cancel : U → T.World → T.World

namespace Suspending

inductive ExecutionStop where
  | completed
  | suspended
  | commandLimit
  | queueOverflow
  deriving DecidableEq

/-- A command result that is still to come. -/
structure ResultSuspension (T : CommandTypes) (U : Type) where
  suspension : U
  source : T.Source
  modifiers : ChainModifiers

/-- What goes on after a suspension. -/
inductive ResultAction (T : CommandTypes) where
  | unavailable (source : T.Source)
  | complete (source : T.Source) (modifiers : ChainModifiers) (result : Except T.SyntaxError Int)

inductive QueueAction (T : CommandTypes) (U : Type) where
  | entry (action : EntryAction T)
  | suspend (suspension : ResultSuspension T U)
  | resume (action : ResultAction T)

def QueueAction.runsAfterCommandLimit : QueueAction T U → Bool
  | entry _ => false
  | suspend _ => true
  | resume _ => true

structure QueueEntry (T : CommandTypes) (U : Type) where
  frame : CommandFrame T
  action : QueueAction T U

structure ActiveSuspension (T : CommandTypes) (U : Type) where
  frame : CommandFrame T
  suspension : ResultSuspension T U

/-- An action that was executed: its calls of `increment_cost` and the quota it started with. -/
structure ExecutedAction where
  cost : Nat
  quota : Nat
  runsAfterCommandLimit : Bool

structure Context (T : CommandTypes) (U : Type) where
  commandLimit : Nat
  forkLimit : Nat
  queueLimit : Nat
  commandQuota : Nat
  queueOverflow : Bool
  commandQueue : List (QueueEntry T U)
  newTopCommands : List (QueueEntry T U)
  suspension : Option (ActiveSuspension T U)
  currentFrameDepth : Nat
  observed : Observed T
  executed : List ExecutedAction
  mostEntries : Nat

/-- A request of an action to the queue. -/
inductive Request (T : CommandTypes) (U : Type) where
  | queueNext (action : QueueAction T U)
  | discard

def Request.lift : QueueOp T → Request T U
  | .queueNext action => .queueNext (.entry action)
  | .discard => .discard

/-- The requests of an action, as in `Scheduled`. -/
structure Requested (T : CommandTypes) (U : Type) where
  cost : Nat
  frame : Option (CommandResultCallback T × Bool)
  requests : List (Request T U)

namespace Context

variable (R : SuspendingRuntime T U)

def new (commandLimit forkLimit queueLimit : Nat) (observed : Observed T) : Context T U where
  commandLimit := max commandLimit 1
  forkLimit := forkLimit
  queueLimit := queueLimit
  commandQuota := max commandLimit 1
  queueOverflow := false
  commandQueue := []
  newTopCommands := []
  suspension := none
  currentFrameDepth := 0
  observed := observed
  executed := []
  mostEntries := 0

/-- Every entry that is queued. -/
def entries (c : Context T U) : List (QueueEntry T U) := c.newTopCommands ++ c.commandQueue

/-! ## Queueing and discarding -/

def createTopFrame (c : Context T U) (consumer : CommandResultCallback T) : CommandFrame T :=
  if c.currentFrameDepth = 0 then ⟨0, consumer, .all⟩
  else
    let depth := c.currentFrameDepth + 1
    ⟨depth, consumer, .atOrAbove depth⟩

/-- Only queued suspensions do something when they are cancelled. -/
def cancelEntries (entries : List (QueueEntry T U)) (world : T.World) : T.World :=
  entries.foldl (fun world entry =>
    match entry.action with
    | .suspend s => R.cancel s.suspension world
    | _ => world) world

def updateWorld (c : Context T U) (f : T.World → T.World) : Context T U :=
  { c with observed := { c.observed with world := f c.observed.world } }

def cancelCommandQueue (c : Context T U) : Context T U :=
  { c.updateWorld (cancelEntries R c.commandQueue) with commandQueue := [] }

def cancelNewTopCommands (c : Context T U) : Context T U :=
  { c.updateWorld (cancelEntries R c.newTopCommands) with newTopCommands := [] }

def checkOverflow (c : Context T U) : Context T U :=
  if c.queueLimit < c.newTopCommands.length + c.commandQueue.length then
    (({ c with queueOverflow := true }).cancelNewTopCommands R).cancelCommandQueue R
  else c

def queueEntry (c : Context T U) (entry : QueueEntry T U) : Context T U :=
  let c := c.checkOverflow R
  if c.queueOverflow then c.updateWorld (cancelEntries R [entry])
  else
    let c := { c with newTopCommands := c.newTopCommands ++ [entry] }
    { c with mostEntries := max c.mostEntries c.entries.length }

/-- The staged commands are popped from the back and pushed to the front of the queue. -/
def pushNewCommands (c : Context T U) : Context T U :=
  { c with
    commandQueue := c.newTopCommands.reverse.foldl (fun queue command => command :: queue) c.commandQueue
    newTopCommands := [] }

def discard (c : Context T U) (frame : CommandFrame T) : Context T U :=
  match frame.discard with
  | .all => c.cancelCommandQueue R
  | .atOrAbove depth =>
    { c.updateWorld (cancelEntries R (c.commandQueue.takeWhile fun entry => depth ≤ entry.frame.depth)) with
      commandQueue := c.commandQueue.dropWhile fun entry => depth ≤ entry.frame.depth }

def request (frame : CommandFrame T) (c : Context T U) : Request T U → Context T U
  | .queueNext action => c.queueEntry R ⟨frame, action⟩
  | .discard => c.discard R frame

/-! ## Executing -/

/-- An action, but for activating a suspension. -/
def perform (forkLimit : Nat) (consumer : CommandResultCallback T) (o : Observed T) : QueueAction T U → Requested T U × Observed T
  | .entry action =>
    let scheduled : Requested T U × Observed T :=
      let (scheduled, o) := action.perform R.toCommandRuntime forkLimit consumer o
      (⟨scheduled.cost, scheduled.frame, scheduled.ops.map Request.lift⟩, o)
    match action with
    | .execute executor source modifiers =>
      match R.suspended executor with
      | none => scheduled
      | some suspended =>
        if !R.executionIsCurrent source o.world then
          (⟨0, none, []⟩, o.onResult R.toCommandRuntime (R.callback source) false 0)
        else
          match suspended source o.world with
          | (.ok suspension, world) => (⟨1, none, [.queueNext (.suspend ⟨suspension, source, modifiers⟩)]⟩, { o with world := world })
          | (.error error, world) =>
            (⟨1, none, []⟩, completeCommandResult R.toCommandRuntime { o with world := world } source modifiers (.error error))
    | _ => scheduled
  | .suspend _ => (⟨0, none, []⟩, o)
  | .resume (.unavailable source) => (⟨0, none, []⟩, o.onResult R.toCommandRuntime (R.callback source) false 0)
  | .resume (.complete source modifiers result) =>
    (⟨0, none, []⟩, completeCommandResult R.toCommandRuntime o source modifiers result)

/-- The frame that the requests of an action are for. -/
def target (frame : CommandFrame T) (requested : Requested T U) : CommandFrame T :=
  match requested.frame with
  | none => frame
  | some (consumer, returnParentFrame) => frame.nested consumer returnParentFrame

/-- The suspension that is active after an entry. -/
def activated (c : Context T U) (entry : QueueEntry T U) : Option (ActiveSuspension T U) :=
  match entry.action with
  | .suspend suspension => some ⟨entry.frame, suspension⟩
  | _ => c.suspension

def execute (c : Context T U) (entry : QueueEntry T U) : Context T U :=
  let (requested, observed) := perform R c.forkLimit entry.frame.returnValueConsumer c.observed entry.action
  let c := { c with
    commandQuota := c.commandQuota - requested.cost
    observed := observed
    executed := c.executed ++ [⟨requested.cost, c.commandQuota, entry.action.runsAfterCommandLimit⟩]
    suspension := c.activated entry }
  requested.requests.foldl (request R (target entry.frame requested)) c

/-- A turn of the loop of `run`, which stops the loop or goes on. -/
def turn (c : Context T U) : Context T U × Option ExecutionStop :=
  if c.commandQuota = 0 ∧ ¬ (c.commandQueue.head?.any fun entry => entry.action.runsAfterCommandLimit) then (c, some .commandLimit)
  else
    match c.commandQueue with
    | [] => (c, some .completed)
    | entry :: rest =>
      let c := { c with commandQueue := rest, currentFrameDepth := entry.frame.depth }.execute R entry
      if c.queueOverflow then (c, some .queueOverflow)
      else if c.suspension.isSome then (c, some .suspended)
      else (c.pushNewCommands, none)

/-- The loop of `run`; `none` when the fuel is used up. -/
def runLoop : Nat → Context T U → Option (Context T U × ExecutionStop)
  | 0, _ => none
  | fuel + 1, c =>
    match c.turn R with
    | (c, some stop) => some (c, stop)
    | (c, none) => runLoop fuel c

def run (fuel : Nat) (c : Context T U) : Option (Context T U × ExecutionStop) :=
  if c.suspension.isSome then some (c, .suspended)
  else if c.queueOverflow then some (c, .queueOverflow)
  else (c.pushNewCommands.runLoop R fuel).map fun (c, stop) => ({ c with currentFrameDepth := 0 }, stop)

/-- The adapter that ends a suspension when its source is gone. -/
def pollResult (suspension : ResultSuspension T U) (world : T.World) : (ResultSuspension T U ⊕ ResultAction T) × T.World :=
  if !R.executionIsCurrent suspension.source world then
    (.inr (.unavailable suspension.source), R.cancel suspension.suspension world)
  else
    match R.poll suspension.suspension world with
    | (.pending next, world) => (.inl { suspension with suspension := next }, world)
    | (.ready result, world) => (.inr (.complete suspension.source suspension.modifiers result), world)

def pollSuspension (fuel : Nat) (c : Context T U) : Option (Context T U × ExecutionStop) :=
  match c.suspension with
  | none => c.run R fuel
  | some active =>
    match pollResult R active.suspension c.observed.world with
    | (.inl next, world) =>
      some ({ c with suspension := some { active with suspension := next }, observed := { c.observed with world := world } }, .suspended)
    | (.inr action, world) =>
      let c : Context T U := { c with suspension := none, observed := { c.observed with world := world } }
      (c.queueEntry R ⟨active.frame, .resume action⟩).run R fuel

def cancelSuspension (c : Context T U) : Context T U :=
  match c.suspension with
  | none => c
  | some active => { c.updateWorld (R.cancel active.suspension.suspension) with suspension := none }

def cancel (c : Context T U) : Context T U :=
  let c := c.cancelSuspension R
  { (c.cancelCommandQueue R).cancelNewTopCommands R with queueOverflow := false, currentFrameDepth := 0 }

def queueInitial (c : Context T U) : InitialEntry T → Context T U
  | .command chain source consumer =>
    c.queueEntry R ⟨c.createTopFrame consumer, .entry (.buildContexts chain source [source] .none)⟩
  | .functionCall entries sender consumer =>
    c.queueEntry R ⟨c.createTopFrame consumer, .entry (.callFunction entries sender (R.callback sender) false)⟩

/-- A call of the owner of the queue. The world goes its way between two of them. -/
inductive Call (T : CommandTypes) where
  | queueInitial (entry : InitialEntry T)
  | run
  | pollSuspension
  | cancel
  | world (world : T.World)

def call (fuel : Nat) (c : Context T U) : Call T → Option (Context T U)
  | .queueInitial entry => some (c.queueInitial R entry)
  | .run => (c.run R fuel).map Prod.fst
  | .pollSuspension => (c.pollSuspension R fuel).map Prod.fst
  | .cancel => some (c.cancel R)
  | .world world => some (c.updateWorld fun _ => world)

/-- The call returns, with whatever fuel suffices. -/
def Called (c : Context T U) (call : Call T) (c' : Context T U) : Prop :=
  ∃ enough, ∀ fuel, enough ≤ fuel → c.call R fuel call = some c'

end Context

end Suspending

end Foton

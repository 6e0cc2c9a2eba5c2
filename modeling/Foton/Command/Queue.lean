import Foton.Command.Execute

/-!
# The flat command queue

Frames are depths on a double-ended queue. What an action queues is staged and
put in front of the queue after the action; a discard pops a prefix by depth.
-/

namespace Foton

variable {T : CommandTypes}

inductive ExecutionStop where
  | completed
  | commandLimit
  | queueOverflow
  deriving DecidableEq

inductive FrameDiscard where
  | all
  | atOrAbove (depth : Nat)
  deriving DecidableEq

structure CommandFrame (T : CommandTypes) where
  depth : Nat
  returnValueConsumer : CommandResultCallback T
  discard : FrameDiscard

/-- The frame of a function or of an isolated call. -/
def CommandFrame.nested (frame : CommandFrame T) (consumer : CommandResultCallback T) (returnParentFrame : Bool) :
    CommandFrame T :=
  let depth := frame.depth + 1
  ⟨depth, consumer, if returnParentFrame then frame.discard else .atOrAbove depth⟩

structure CommandQueueEntry (T : CommandTypes) where
  frame : CommandFrame T
  action : EntryAction T

structure CommandExecutionContext (T : CommandTypes) where
  forkLimit : Nat
  queueLimit : Nat
  commandQuota : Nat
  queueOverflow : Bool
  commandQueue : List (CommandQueueEntry T)
  newTopCommands : List (CommandQueueEntry T)
  currentFrameDepth : Nat
  observed : Observed T

/-- What an execution starts with. -/
inductive InitialEntry (T : CommandTypes) where
  | command (chain : ContextChain T) (source : T.Source) (consumer : CommandResultCallback T)
  | functionCall (entries : FunctionEntries T) (sender : T.Source) (consumer : CommandResultCallback T)

namespace CommandExecutionContext

def new (commandLimit forkLimit queueLimit : Nat) (observed : Observed T) : CommandExecutionContext T :=
  ⟨forkLimit, queueLimit, max commandLimit 1, false, [], [], 0, observed⟩

def createTopFrame (c : CommandExecutionContext T) (consumer : CommandResultCallback T) : CommandFrame T :=
  if c.currentFrameDepth = 0 then ⟨0, consumer, .all⟩
  else
    let depth := c.currentFrameDepth + 1
    ⟨depth, consumer, .atOrAbove depth⟩

/-- A queue that has grown too long is dropped, and so is what is queued after that. -/
def queueEntry (c : CommandExecutionContext T) (entry : CommandQueueEntry T) : CommandExecutionContext T :=
  let c :=
    if c.queueLimit < c.newTopCommands.length + c.commandQueue.length then
      { c with queueOverflow := true, newTopCommands := [], commandQueue := [] }
    else c
  if c.queueOverflow then c else { c with newTopCommands := c.newTopCommands ++ [entry] }

/-- The staged commands are popped from the back and pushed to the front of the queue. -/
def pushNewCommands (c : CommandExecutionContext T) : CommandExecutionContext T :=
  { c with
    commandQueue := c.newTopCommands.reverse.foldl (fun queue command => command :: queue) c.commandQueue
    newTopCommands := [] }

def discard (c : CommandExecutionContext T) (frame : CommandFrame T) : CommandExecutionContext T :=
  match frame.discard with
  | .all => { c with commandQueue := [] }
  | .atOrAbove depth => { c with commandQueue := c.commandQueue.dropWhile fun entry => depth ≤ entry.frame.depth }

def queueInitial (R : CommandRuntime T) (c : CommandExecutionContext T) : InitialEntry T → CommandExecutionContext T
  | .command chain source consumer =>
    c.queueEntry ⟨c.createTopFrame consumer, .buildContexts chain source [source] .none⟩
  | .functionCall entries sender consumer =>
    c.queueEntry ⟨c.createTopFrame consumer, .callFunction entries sender (R.callback sender) false⟩

/-- A request of an action, for the given frame. -/
def request (frame : CommandFrame T) (c : CommandExecutionContext T) : QueueOp T → CommandExecutionContext T
  | .queueNext action => c.queueEntry ⟨frame, action⟩
  | .discard => c.discard frame

/-- The frame that the requests of an action are for. -/
def target (frame : CommandFrame T) (scheduled : Scheduled T) : CommandFrame T :=
  match scheduled.frame with
  | none => frame
  | some (consumer, returnParentFrame) => frame.nested consumer returnParentFrame

/-- The action of an entry is executed. -/
def execute (R : CommandRuntime T) (c : CommandExecutionContext T) (entry : CommandQueueEntry T) :
    CommandExecutionContext T :=
  let (scheduled, observed) :=
    entry.action.perform R c.forkLimit entry.frame.returnValueConsumer c.observed
  let c := { c with commandQuota := c.commandQuota - scheduled.cost, observed := observed }
  scheduled.ops.foldl (request (target entry.frame scheduled)) c

/-- The loop of `run`; `none` when the fuel is used up. -/
def runLoop (R : CommandRuntime T) : Nat → CommandExecutionContext T →
    Option (ExecutionStop × CommandExecutionContext T)
  | 0, _ => none
  | fuel + 1, c =>
    if c.commandQuota = 0 then some (.commandLimit, c)
    else
      match c.commandQueue with
      | [] => some (.completed, c)
      | entry :: rest =>
        let c := { c with commandQueue := rest, currentFrameDepth := entry.frame.depth }.execute R entry
        if c.queueOverflow then some (.queueOverflow, c) else runLoop R fuel c.pushNewCommands

def run (R : CommandRuntime T) (fuel : Nat) (c : CommandExecutionContext T) :
    Option (ExecutionStop × CommandExecutionContext T) :=
  if c.queueOverflow then some (.queueOverflow, c)
  else (c.pushNewCommands.runLoop R fuel).map fun (stop, c) => (stop, { c with currentFrameDepth := 0 })

/-- A fresh context with everything queued that the execution starts with. -/
def start (R : CommandRuntime T) (commandLimit forkLimit queueLimit : Nat) (observed : Observed T)
    (initial : List (InitialEntry T)) : CommandExecutionContext T :=
  initial.foldl (queueInitial R) (new commandLimit forkLimit queueLimit observed)

end CommandExecutionContext

/-!
## The recursive interpreter
Commands run depth first: what an action queues runs, with all that follows from
it, before what was queued behind the action. A return leaves a number of nested
frames, and whatever was still to run in them is skipped. No queue and no depths
are kept.
-/

variable {T : CommandTypes}

/-- A live frame: who gets its result, and how many nested frames a return in it leaves, itself included. -/
structure CallFrame (T : CommandTypes) where
  consumer : CommandResultCallback T
  leaves : Nat

/-- A frame inside `frame`; one that returns for its parent leaves that one too. -/
def CallFrame.enter (frame : CallFrame T) (consumer : CommandResultCallback T) (returnParentFrame : Bool) :
    CallFrame T :=
  ⟨consumer, if returnParentFrame then frame.leaves + 1 else 1⟩

namespace QueueOp

def queued : QueueOp T → Option (EntryAction T)
  | .queueNext action => some action
  | .discard => none

def isDiscard : QueueOp T → Bool
  | .queueNext _ => false
  | .discard => true

end QueueOp

namespace Scheduled

/-- The actions that an action has queued. -/
def children (s : Scheduled T) : List (EntryAction T) := s.ops.filterMap QueueOp.queued

/-- The number of frames that an action leaves by itself. -/
def left (s : Scheduled T) (frame : CallFrame T) : Nat := if s.ops.any QueueOp.isDiscard then frame.leaves else 0

end Scheduled

/-- Actions of one frame, one after the other, until the frame is left. -/
def interpretAll (step : EntryAction T → Observed T → Option (Nat × Observed T)) :
    List (EntryAction T) → Observed T → Option (Nat × Observed T)
  | [], o => some (0, o)
  | action :: rest, o =>
    match step action o with
    | none => none
    | some (0, o) => interpretAll step rest o
    | some (left + 1, o) => some (left + 1, o)

/-- One action with all that follows from it; the number of frames that are left, counted from the frame of the
action. `none` when the nesting is deeper than the fuel. -/
def interpret (R : CommandRuntime T) (forkLimit : Nat) :
    Nat → CallFrame T → EntryAction T → Observed T → Option (Nat × Observed T)
  | 0, _, _, _ => none
  | fuel + 1, frame, action, o =>
    let (scheduled, o) := action.perform R forkLimit frame.consumer o
    match scheduled.frame with
    | none =>
      (interpretAll (interpret R forkLimit fuel frame) scheduled.children o).map fun (left, o) =>
        (max left (scheduled.left frame), o)
    | some (consumer, returnParentFrame) =>
      let inner := frame.enter consumer returnParentFrame
      (interpretAll (interpret R forkLimit fuel inner) scheduled.children o).map fun (left, o) =>
        (max left (scheduled.left inner) - 1, o)

/-- The frame and the action of what an execution starts with. -/
def InitialEntry.top (R : CommandRuntime T) : InitialEntry T → CallFrame T × EntryAction T
  | .command chain source consumer => (⟨consumer, 1⟩, .buildContexts chain source [source] .none)
  | .functionCall entries sender consumer => (⟨consumer, 1⟩, .callFunction entries sender (R.callback sender) false)

/-- The initial entries share the outermost frame: a return in it ends the execution. -/
def interpretTop (R : CommandRuntime T) (forkLimit fuel : Nat) :
    List (InitialEntry T) → Observed T → Option (Observed T)
  | [], o => some o
  | entry :: rest, o =>
    match interpret R forkLimit fuel (entry.top R).1 (entry.top R).2 o with
    | none => none
    | some (0, o) => interpretTop R forkLimit fuel rest o
    | some (_ + 1, o) => some o

end Foton

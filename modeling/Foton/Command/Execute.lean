import Foton.Command.Chain

/-!
# What an action does

An action changes the world and tells the context what to queue and what to
discard. Its own frame is known to it by the callback alone.
-/

namespace Foton

variable {T : CommandTypes}

/-- A request to the context, for the frame it is made in. -/
inductive QueueOp (T : CommandTypes) where
  | queueNext (action : EntryAction T)
  | discard

/-- The requests of one action. -/
structure Scheduled (T : CommandTypes) where
  /-- The number of calls of `increment_cost`. -/
  cost : Nat
  /-- The callback of the nested frame that the requests are for, and whether it keeps the discard of its parent;
  `none` when they are for the frame of the action. -/
  frame : Option (CommandResultCallback T × Bool)
  ops : List (QueueOp T)

namespace Scheduled

def here (ops : List (QueueOp T)) : Scheduled T := ⟨0, none, ops⟩

def addCost (s : Scheduled T) : Scheduled T := { s with cost := s.cost + 1 }

end Scheduled

variable (R : CommandRuntime T)

namespace Observed

def onResult (o : Observed T) (callback : CommandResultCallback T) (success : Bool) (value : Int) : Observed T :=
  callback.foldl (fun o c => ⟨R.call c success value o.world, o.events ++ [.result c success value]⟩) o

def handleError (o : Observed T) (source : T.Source) (error : T.SyntaxError) (forked : Bool) : Observed T :=
  { o with world := R.handleError source error forked o.world }

end Observed

def completeCommandResult (o : Observed T) (source : T.Source) (modifiers : ChainModifiers)
    (result : Except T.SyntaxError Int) : Observed T :=
  match result with
  | .ok value => o.onResult R (R.callback source) true value
  | .error error =>
    let o := o.onResult R (R.callback source) false 0
    if !modifiers.forked then o.handleError R source error false else o

/-- One call on the execution control of a frame. -/
def controlCall (consumer : CommandResultCallback T) (o : Observed T) : ControlCall T → List (QueueOp T) × Observed T
  | .onResult callback success value => ([], o.onResult R callback success value)
  | .handleError source error forked => ([], o.handleError R source error forked)
  | .returnSuccess value => ([.discard], o.onResult R consumer true value)
  | .returnFailure => ([.discard], o.onResult R consumer false 0)
  | .discardFrame => ([.discard], o)
  | .queueContexts chain originalSource sources modifiers =>
    ([.queueNext (.buildContexts chain originalSource sources modifiers)], o)
  | .queueDeferredContexts chain originalSource sources modifiers =>
    ([.queueNext (.deferredBuildContexts chain originalSource sources modifiers)], o)
  | .queueFunctionCall entries sender resultCallback returnParentFrame =>
    ([.queueNext (.callFunction entries sender resultCallback returnParentFrame)], o)
  | .queueIsolated output task => ([.queueNext (.isolatedCall task output)], o)
  | .queueCallback callback => ([.queueNext (.callback callback)], o)
  | .queueFallthrough => ([.queueNext .fallthrough], o)

def control (consumer : CommandResultCallback T) : List (ControlCall T) → Observed T → List (QueueOp T) × Observed T
  | [], o => ([], o)
  | call :: rest, o =>
    let (ops, o) := controlCall R consumer o call
    let (ops', o) := control consumer rest o
    (ops ++ ops', o)

/-- A custom executor runs for each source while the contexts are built. -/
def runCustom (consumer : CommandResultCallback T) (executor : T.CustomExecutor) (modifiers : ChainModifiers) :
    List T.Source → Observed T → List (QueueOp T) × Observed T
  | [], o => ([], o)
  | source :: rest, o =>
    let (calls, world) := R.run executor source ⟨[], .custom executor⟩ modifiers consumer o.world
    let (ops, o) := control R consumer calls ⟨world, o.events ++ [.run executor source]⟩
    let (ops', o) := runCustom consumer executor modifiers rest o
    (ops ++ ops', o)

def scheduleExecutions (executor : T.StandardExecutor) (sources : List T.Source) (modifiers : ChainModifiers) :
    List (QueueOp T) :=
  match sources.length with
  | 0 => []
  | 1 | 2 => sources.map fun source => .queueNext (.execute executor source modifiers)
  | _ => [.queueNext (.executeContinuation executor sources modifiers)]

/-- The sources after a standard modifier; `none` when the command ends there. -/
def modifySources (forkLimit : Nat) (modifier : T.StandardModifier) (modifiers : ChainModifiers)
    (originalSource : T.Source) :
    List T.Source → List T.Source → Observed T → Option (List T.Source) × Observed T
  | [], nextSources, o => (some nextSources, o)
  | source :: rest, nextSources, o =>
    match R.modify modifier source o.world with
    | (.ok newSources, world) =>
      let o := { o with world := world }
      if forkLimit ≤ nextSources.length + newSources.length then
        (none, o.handleError R originalSource (R.forkLimitReached forkLimit) modifiers.forked)
      else modifySources forkLimit modifier modifiers originalSource rest (nextSources ++ newSources) o
    | (.error error, world) =>
      let o := { o with world := world }
      if modifiers.forked then modifySources forkLimit modifier modifiers originalSource rest nextSources o
      else (none, o.handleError R source error false)

def buildContexts (forkLimit : Nat) (consumer : CommandResultCallback T) (executor : FotonExecutor T)
    (originalSource : T.Source) :
    List (ModifyStage T) → List T.Source → ChainModifiers → Observed T → Scheduled T × Observed T
  | stage :: rest, sources, modifiers, o =>
    let sources := sources.filter fun source => R.executionIsCurrent source o.world
    if sources.isEmpty then (.here (if modifiers.return_ then [.queueNext .fallthrough] else []), o)
    else
      let modifiers := if stage.forked then modifiers.withForked else modifiers
      match stage.modifier with
      | some (.custom modifier) =>
        let (calls, world) :=
          R.apply modifier originalSource sources ⟨stage :: rest, executor⟩ modifiers consumer o.world
        let (ops, o) := control R consumer calls { o with world := world }
        (.here ops, o)
      | some (.standard modifier) =>
        match modifySources R forkLimit modifier modifiers originalSource sources [] o with
        | (none, o) => ((Scheduled.here []).addCost, o)
        | (some nextSources, o) =>
          let (scheduled, o) := buildContexts forkLimit consumer executor originalSource rest nextSources modifiers o
          (scheduled.addCost, o)
      | none => buildContexts forkLimit consumer executor originalSource rest sources modifiers o
  | [], sources, modifiers, o =>
    let sources := sources.filter fun source => R.executionIsCurrent source o.world
    match sources with
    | [] => (.here (if modifiers.return_ then [.queueNext .fallthrough] else []), o)
    | source :: rest =>
      match executor with
      | .custom executor =>
        let (ops, o) := runCustom R consumer executor modifiers (source :: rest) o
        (.here ops, o)
      | .standard executor =>
        if modifiers.return_ then
          let source := R.withCallback source (R.callback source ++ consumer)
          (.here (scheduleExecutions executor [source] modifiers), o)
        else (.here (scheduleExecutions executor (source :: rest) modifiers), o)

def scheduleFunctionEntries (entries : FunctionEntries T) (sender : T.Source) : List (QueueOp T) :=
  match entries.length with
  | 0 => []
  | 1 | 2 => entries.map fun entry => .queueNext (.boundEntry entry sender)
  | _ => [.queueNext (.functionEntryContinuation entries sender 0)]

def reportResults (reports : List (CommandReport T)) (o : Observed T) : Observed T :=
  reports.foldl (fun o report => o.onResult R report.callback report.success report.value) o

/-- The bodies of `EntryAction::execute`. -/
def EntryAction.perform (forkLimit : Nat) (consumer : CommandResultCallback T) (o : Observed T) :
    EntryAction T → Scheduled T × Observed T
  | .buildContexts chain originalSource sources modifiers =>
    Foton.buildContexts R forkLimit consumer chain.executor originalSource chain.modify sources modifiers o
  | .deferredBuildContexts chain originalSource sources modifiers =>
    let (sources, world) := sources o.world
    Foton.buildContexts R forkLimit consumer chain.executor originalSource chain.modify sources modifiers
      { o with world := world }
  | .executeContinuation executor sources modifiers =>
    match sources with
    | [] => (.here [], o)
    | source :: rest =>
      let next : List (QueueOp T) :=
        if rest.isEmpty then [] else [.queueNext (.executeContinuation executor rest modifiers)]
      (.here (.queueNext (.execute executor source modifiers) :: next), o)
  | .execute executor source modifiers =>
    if !R.executionIsCurrent source o.world then (.here [], o.onResult R (R.callback source) false 0)
    else
      let (result, world) := R.execute executor source o.world
      let o := ⟨world, o.events ++ [.execute executor source]⟩
      ((Scheduled.here []).addCost, completeCommandResult R o source modifiers result)
  | .boundEntry entry sender =>
    Foton.buildContexts R forkLimit consumer entry.executor sender entry.modify [sender] .none o
  | .callFunction entries sender resultCallback returnParentFrame =>
    (⟨1, some (resultCallback, returnParentFrame), scheduleFunctionEntries entries sender⟩, o)
  | .functionEntryContinuation entries sender index =>
    match entries[index]? with
    | none => (.here [], o)
    | some entry =>
      let next : List (QueueOp T) :=
        if index + 1 < entries.length then [.queueNext (.functionEntryContinuation entries sender (index + 1))] else []
      (.here (.queueNext (.boundEntry entry sender) :: next), o)
  | .isolatedCall task output =>
    let (calls, world) := task o.world
    let (ops, o) := control R output calls { o with world := world }
    (⟨0, some (output, false), ops⟩, o)
  | .callback report =>
    let (reports, world) := report o.world
    (.here [], reportResults R reports { o with world := world })
  | .fallthrough => (.here [.discard], o.onResult R consumer false 0)

end Foton

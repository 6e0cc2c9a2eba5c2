import Foton.Command.Suspend
import Mathlib.Algebra.Ring.Nat

/-!
# The commands that control the queue

Returning from a frame, running functions and testing a function's result.
Everything else about commands is a parameter.
-/

namespace Foton

structure BuiltinTypes where
  World : Type
  Source : Type
  /-- A result callback that a source brings with it. -/
  Callback : Type
  SyntaxError : Type
  StandardModifier : Type
  StandardExecutor : Type
  Suspension : Type
  FunctionOrTag : Type
  FunctionId : Type
  Arguments : Type
  /-- Why a function cannot be compiled for its arguments. -/
  Reason : Type

variable {B : BuiltinTypes}

/-- The callbacks that these commands make. Those that share a value name its cell. -/
inductive BuiltinCallback (B : BuiltinTypes) where
  | source (callback : B.Callback)
  | output (source : B.Source) (id : B.FunctionId) (callback : List (BuiltinCallback B))
  | sum (cell : Nat)
  | passing (cell : Nat) (candidate : B.Source) (expected : Bool)

/-- The parsed arguments stand beside the modifier. -/
inductive BuiltinModifier (B : BuiltinTypes) where
  | executeIfFunction (name : B.FunctionOrTag) (expected : Bool)
  | returnRun

inductive BuiltinExecutor (B : BuiltinTypes) where
  | runFunction (name : B.FunctionOrTag) (arguments : Option B.Arguments)
  | returnValue (value : Int)
  | returnFail

/-- The world with the shared cells: sums of results, if there are any yet, and sources that passed. -/
structure BuiltinWorld (B : BuiltinTypes) where
  world : B.World
  sums : List (Option Int)
  passing : List (List B.Source)

def BuiltinTypes.types (B : BuiltinTypes) : CommandTypes where
  World := BuiltinWorld B
  Source := B.Source
  Callback := BuiltinCallback B
  SyntaxError := B.SyntaxError
  StandardModifier := B.StandardModifier
  CustomModifier := BuiltinModifier B
  StandardExecutor := B.StandardExecutor
  CustomExecutor := BuiltinExecutor B

/-- What the commands use of the server and of their sources. -/
structure BuiltinEnvironment (B : BuiltinTypes) where
  executionIsCurrent : B.Source → B.World → Bool
  callback : B.Source → CommandResultCallback B.types
  withCallback : B.Source → CommandResultCallback B.types → B.Source
  withSuppressedOutput : B.Source → B.Source
  isSilent : B.Source → Bool
  handleError : B.Source → B.SyntaxError → Bool → B.World → B.World
  forkLimitReached : Nat → B.SyntaxError
  call : B.Callback → Bool → Int → B.World → B.World
  modify : B.StandardModifier → B.Source → B.World → Except B.SyntaxError (List B.Source) × B.World
  execute : B.StandardExecutor → B.Source → B.World → Except B.SyntaxError Int × B.World
  suspended : B.StandardExecutor → Option (B.Source → B.World → Except B.SyntaxError B.Suspension × B.World)
  poll : B.Suspension → B.World → SuspensionPoll B.types B.Suspension × B.World
  cancel : B.Suspension → B.World → B.World
  /-- The messages that functions were scheduled and what one of them returned. -/
  sendScheduled : B.Source → List B.FunctionId → B.World → B.World
  sendResult : B.Source → B.FunctionId → Int → B.World → B.World
  resolveFunctions : B.Source → B.FunctionOrTag → B.World → Except B.SyntaxError (List B.FunctionId)
  instantiate : B.Source → B.FunctionId → Option B.Arguments → B.World → Except B.Reason (FunctionEntries B.types)
  functionInstantiationFailure : B.FunctionId → B.Reason → B.SyntaxError
  conditionInstantiationFailure : B.FunctionId → B.Reason → B.SyntaxError

/-! ## Shared cells -/

namespace BuiltinWorld

def newSum (w : BuiltinWorld B) : Nat × BuiltinWorld B := (w.sums.length, { w with sums := w.sums ++ [none] })

/-- The sum wraps around like an `i32`. -/
def addToSum (cell : Nat) (result : Int) (w : BuiltinWorld B) : BuiltinWorld B :=
  { w with sums := w.sums.modify cell fun sum => some ((sum.getD 0 + result).bmod (2 ^ 32)) }

def newPassing (w : BuiltinWorld B) : Nat × BuiltinWorld B := (w.passing.length, { w with passing := w.passing ++ [[]] })

def addPassing (cell : Nat) (candidate : B.Source) (w : BuiltinWorld B) : BuiltinWorld B :=
  { w with passing := w.passing.modify cell fun sources => sources ++ [candidate] }

def takePassing (cell : Nat) (w : BuiltinWorld B) : List B.Source × BuiltinWorld B :=
  ((w.passing[cell]?).getD [], { w with passing := w.passing.set cell [] })

end BuiltinWorld

namespace BuiltinEnvironment

variable (env : BuiltinEnvironment B)

mutual

def onResult (success : Bool) (result : Int) : BuiltinCallback B → BuiltinWorld B → BuiltinWorld B
  | .source callback, w => { w with world := env.call callback success result w.world }
  | .output source id callback, w => onResults success result callback { w with world := env.sendResult source id result w.world }
  | .sum cell, w => w.addToSum cell result
  | .passing cell candidate expected, w => if decide (result ≠ 0) = expected then w.addPassing cell candidate else w

def onResults (success : Bool) (result : Int) : List (BuiltinCallback B) → BuiltinWorld B → BuiltinWorld B
  | [], w => w
  | callback :: rest, w => onResults success result rest (onResult success result callback w)

end

/-! ## Functions -/

def decorateOutput (source : B.Source) (id : B.FunctionId) (callback : CommandResultCallback B.types) : CommandResultCallback B.types :=
  if env.isSilent source then callback else [.output source id callback]

/-- The compiled functions, in order, or the first that cannot be compiled. -/
def instantiateAll (source : B.Source) (arguments : Option B.Arguments) (world : B.World) :
    List B.FunctionId → Except (B.FunctionId × B.Reason) (List (B.FunctionId × FunctionEntries B.types))
  | [] => .ok []
  | id :: rest =>
    match env.instantiate source id arguments world with
    | .error reason => .error (id, reason)
    | .ok entries =>
      match instantiateAll source arguments world rest with
      | .error failure => .error failure
      | .ok functions => .ok ((id, entries) :: functions)

def queueFunctions (functions : List (B.FunctionId × FunctionEntries B.types)) (source : B.Source) (modifiers : ChainModifiers)
    (consumer : CommandResultCallback B.types) (w : BuiltinWorld B) : List (ControlCall B.types) × BuiltinWorld B :=
  let functionSource := env.withCallback (env.withSuppressedOutput source) []
  let calls (callback : CommandResultCallback B.types) (returnParentFrame : Bool) : List (ControlCall B.types) :=
    functions.map fun (id, entries) =>
      .queueFunctionCall entries functionSource (env.decorateOutput source id callback) returnParentFrame
  if modifiers.return_ then (calls (env.callback source ++ consumer) true ++ [.queueFallthrough], w)
  else
    match functions with
    | [] => ([], w)
    | [_] => (calls (env.callback source) false, w)
    | _ =>
      let (cell, w) := w.newSum
      let report (w : BuiltinWorld B) : List (CommandReport B.types) × BuiltinWorld B :=
        match (w.sums[cell]?).join with
        | some sum => ([⟨env.callback source, true, sum⟩], w)
        | none => ([], w)
      (calls [.sum cell] false ++ [.queueCallback report], w)

def runFunction (name : B.FunctionOrTag) (arguments : Option B.Arguments) (source : B.Source) (modifiers : ChainModifiers)
    (consumer : CommandResultCallback B.types) (w : BuiltinWorld B) : List (ControlCall B.types) × BuiltinWorld B :=
  let fail (error : B.SyntaxError) : List (ControlCall B.types) × BuiltinWorld B :=
    ([.handleError source error modifiers.forked, .onResult (env.callback source) false 0], w)
  match env.resolveFunctions source name w.world with
  | .error error => fail error
  | .ok ids =>
    match env.instantiateAll source arguments w.world ids with
    | .error (id, reason) => fail (env.functionInstantiationFailure id reason)
    | .ok functions => env.queueFunctions functions source modifiers consumer { w with world := env.sendScheduled source ids w.world }

/-! ## Modifiers -/

/-- The test of one source, in a frame of its own. -/
def testFunctions (functions : List (B.FunctionId × FunctionEntries B.types)) (output : CommandResultCallback B.types)
    (source : B.Source) : ControlCall B.types :=
  let functionSource := env.withCallback (env.withSuppressedOutput source) []
  .queueIsolated output fun w =>
    (functions.map (fun (_, entries) => .queueFunctionCall entries functionSource output true) ++ [.queueFallthrough], w)

def executeIfFunction (name : B.FunctionOrTag) (expected : Bool) (originalSource : B.Source) (sources : List B.Source)
    (chain : ContextChain B.types) (modifiers : ChainModifiers) (w : BuiltinWorld B) :
    List (ControlCall B.types) × BuiltinWorld B :=
  match env.resolveFunctions originalSource name w.world with
  | .error error => ([.handleError originalSource error modifiers.forked], w)
  | .ok ids =>
    if ids.isEmpty then ([], w)
    else
      match env.instantiateAll originalSource none w.world ids with
      | .error (id, reason) => ([.handleError originalSource (env.conditionInstantiationFailure id reason) modifiers.forked], w)
      | .ok functions =>
        let (cell, w) := w.newPassing
        let tests := sources.map fun source => env.testFunctions functions [.passing cell source expected] source
        match chain.modify with
        | [] => (tests, w)
        | _ :: rest =>
          (tests ++ [.queueDeferredContexts ⟨rest, chain.executor⟩ originalSource (BuiltinWorld.takePassing cell) modifiers], w)

def returnRun (originalSource : B.Source) (sources : List B.Source) (chain : ContextChain B.types) (modifiers : ChainModifiers) :
    List (ControlCall B.types) :=
  if sources.isEmpty then if modifiers.return_ then [.queueFallthrough] else []
  else
    match chain.modify with
    | [] => []
    | _ :: rest => [.discardFrame, .queueContexts ⟨rest, chain.executor⟩ originalSource sources modifiers.withReturn]

/-- The runtime of the queue. -/
def runtime : SuspendingRuntime B.types B.Suspension where
  executionIsCurrent source w := env.executionIsCurrent source w.world
  callback := env.callback
  withCallback := env.withCallback
  handleError source error forked w := { w with world := env.handleError source error forked w.world }
  forkLimitReached := env.forkLimitReached
  call callback success result w := env.onResult success result callback w
  modify modifier source w :=
    let (result, world) := env.modify modifier source w.world
    (result, { w with world := world })
  apply
    | .executeIfFunction name expected, originalSource, sources, chain, modifiers, _, w =>
      env.executeIfFunction name expected originalSource sources chain modifiers w
    | .returnRun, originalSource, sources, chain, modifiers, _, w => (returnRun originalSource sources chain modifiers, w)
  execute executor source w :=
    let (result, world) := env.execute executor source w.world
    (result, { w with world := world })
  run
    | .runFunction name arguments, source, _, modifiers, consumer, w => env.runFunction name arguments source modifiers consumer w
    | .returnValue value, source, _, _, _, w => ([.onResult (env.callback source) true value, .returnSuccess value], w)
    | .returnFail, source, _, _, _, w => ([.onResult (env.callback source) false 0, .returnFailure], w)
  suspended executor :=
    (env.suspended executor).map fun suspend source w =>
      let (result, world) := suspend source w.world
      (result, { w with world := world })
  poll suspension w :=
    let (poll, world) := env.poll suspension w.world
    (poll, { w with world := world })
  cancel suspension w := { w with world := env.cancel suspension w.world }

end BuiltinEnvironment

end Foton

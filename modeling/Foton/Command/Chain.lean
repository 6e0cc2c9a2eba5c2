import Mathlib.Data.List.Basic

/-!
# Commands and the actions of the command queue

A context chain has modifier stages and a terminal executor. What a modifier, an
executor or a callback does to the world is a parameter; a custom one hands back
the calls it makes on its execution control.
-/

namespace Foton

structure CommandTypes where
  World : Type
  Source : Type
  /-- A single result callback. -/
  Callback : Type
  SyntaxError : Type
  StandardModifier : Type
  CustomModifier : Type
  StandardExecutor : Type
  CustomExecutor : Type

/-- Flags accumulated while a chain is traversed. -/
structure ChainModifiers where
  forked : Bool
  return_ : Bool
  deriving DecidableEq

namespace ChainModifiers

def none : ChainModifiers := ⟨false, false⟩

def withForked (m : ChainModifiers) : ChainModifiers := { m with forked := true }

def withReturn (m : ChainModifiers) : ChainModifiers := { m with return_ := true }

end ChainModifiers

variable {T : CommandTypes}

inductive FotonModifier (T : CommandTypes) where
  | standard (modifier : T.StandardModifier)
  | custom (modifier : T.CustomModifier)

inductive FotonExecutor (T : CommandTypes) where
  | standard (executor : T.StandardExecutor)
  | custom (executor : T.CustomExecutor)

structure ModifyStage (T : CommandTypes) where
  forked : Bool
  modifier : Option (FotonModifier T)

/-- The stages that are left, and the executor of the final one. -/
structure ContextChain (T : CommandTypes) where
  modify : List (ModifyStage T)
  executor : FotonExecutor T

/-- The callbacks that are invoked after a terminal command, one after the other. -/
abbrev CommandResultCallback (T : CommandTypes) : Type := List T.Callback

/-- The lines of one function. -/
abbrev FunctionEntries (T : CommandTypes) : Type := List (ContextChain T)

/-- A result that a queued callback reports. -/
structure CommandReport (T : CommandTypes) where
  callback : CommandResultCallback T
  success : Bool
  value : Int

/-- A call that custom behavior makes on its execution control. -/
inductive ControlCall (T : CommandTypes) where
  | onResult (callback : CommandResultCallback T) (success : Bool) (value : Int)
  | handleError (source : T.Source) (error : T.SyntaxError) (forked : Bool)
  | returnSuccess (value : Int)
  | returnFailure
  | discardFrame
  | queueContexts (chain : ContextChain T) (originalSource : T.Source) (sources : List T.Source)
      (modifiers : ChainModifiers)
  | queueDeferredContexts (chain : ContextChain T) (originalSource : T.Source)
      (sources : T.World → List T.Source × T.World) (modifiers : ChainModifiers)
  | queueFunctionCall (entries : FunctionEntries T) (sender : T.Source) (resultCallback : CommandResultCallback T)
      (returnParentFrame : Bool)
  | queueIsolated (output : CommandResultCallback T) (task : T.World → List (ControlCall T) × T.World)
  | queueCallback (callback : T.World → List (CommandReport T) × T.World)
  | queueFallthrough

/-- An action of the queue. Work that suspends an execution is left out. -/
inductive EntryAction (T : CommandTypes) where
  | buildContexts (chain : ContextChain T) (originalSource : T.Source) (sources : List T.Source)
      (modifiers : ChainModifiers)
  | deferredBuildContexts (chain : ContextChain T) (originalSource : T.Source)
      (sources : T.World → List T.Source × T.World) (modifiers : ChainModifiers)
  | executeContinuation (executor : T.StandardExecutor) (sources : List T.Source) (modifiers : ChainModifiers)
  | execute (executor : T.StandardExecutor) (source : T.Source) (modifiers : ChainModifiers)
  | boundEntry (entry : ContextChain T) (sender : T.Source)
  | callFunction (entries : FunctionEntries T) (sender : T.Source) (resultCallback : CommandResultCallback T)
      (returnParentFrame : Bool)
  | functionEntryContinuation (entries : FunctionEntries T) (sender : T.Source) (index : Nat)
  | isolatedCall (task : T.World → List (ControlCall T) × T.World) (output : CommandResultCallback T)
  | callback (callback : T.World → List (CommandReport T) × T.World)
  | fallthrough

/-- What the parts of commands do. A custom part sees the callback of its frame. -/
structure CommandRuntime (T : CommandTypes) where
  executionIsCurrent : T.Source → T.World → Bool
  callback : T.Source → CommandResultCallback T
  withCallback : T.Source → CommandResultCallback T → T.Source
  handleError : T.Source → T.SyntaxError → Bool → T.World → T.World
  forkLimitReached : Nat → T.SyntaxError
  call : T.Callback → Bool → Int → T.World → T.World
  modify : T.StandardModifier → T.Source → T.World → Except T.SyntaxError (List T.Source) × T.World
  apply : T.CustomModifier → T.Source → List T.Source → ContextChain T → ChainModifiers → CommandResultCallback T →
    T.World → List (ControlCall T) × T.World
  execute : T.StandardExecutor → T.Source → T.World → Except T.SyntaxError Int × T.World
  run : T.CustomExecutor → T.Source → ContextChain T → ChainModifiers → CommandResultCallback T → T.World →
    List (ControlCall T) × T.World

inductive CommandEvent (T : CommandTypes) where
  | execute (executor : T.StandardExecutor) (source : T.Source)
  | run (executor : T.CustomExecutor) (source : T.Source)
  | result (callback : T.Callback) (success : Bool) (value : Int)

/-- The world and what an observer of the execution has seen. -/
structure Observed (T : CommandTypes) where
  world : T.World
  events : List (CommandEvent T)

end Foton

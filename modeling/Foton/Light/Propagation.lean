import Foton.Light.Layout
import Foton.Lib.Drain

/-!
# Block light propagation

The state of a pass is the light levels of the window and the two queues. A
decrease entry takes light away along its directions, and puts what must be
lit again on the increase queue; an increase entry spreads its level.
-/

namespace Foton.Light

/-- A direction set lists its directions in the order in which they are taken. -/
abbrev LightDirectionSet := List LightAxisDirection

def LightDirectionSet.allExceptOpposite (d : LightAxisDirection) : LightDirectionSet :=
  LightAxisDirection.all.filter (· ≠ d.opposite)

structure LightQueueFlags where
  /-- The increase pass should write the entry's level before propagating. -/
  writeLevel : Bool := false
  /-- The increase pass should confirm the current level still matches. -/
  recheckLevel : Bool := false
  /-- Propagation must account for sided transparent block shapes. -/
  hasSidedTransparentBlocks : Bool := false
  deriving DecidableEq

structure LightQueueEntry where
  blockPos : BlockPos
  level : Nat
  directions : LightDirectionSet
  flags : LightQueueFlags
  deriving DecidableEq

/-- What a pass reads: the window and the block states in it. -/
structure LightWindow where
  blocks : BlockStates
  layout : LightCacheLayout
  states : BlockPos → blocks.State

structure LightEdit where
  levels : BlockPos → Nat
  increase : List LightQueueEntry
  decrease : List LightQueueEntry

namespace LightEdit

/-- `light.set`: positions without a light section are left alone. -/
def set (layout : LightCacheLayout) (e : LightEdit) (p : BlockPos) (level : Nat) : LightEdit :=
  if layout.inside p then { e with levels := Function.update e.levels p level } else e

def get (layout : LightCacheLayout) (e : LightEdit) (p : BlockPos) : Nat := if layout.inside p then e.levels p else 0

def enqueueIncrease (layout : LightCacheLayout) (e : LightEdit) (entry : LightQueueEntry) : LightEdit :=
  if layout.encodes entry.blockPos then { e with increase := e.increase ++ [entry] } else e

def enqueueDecrease (layout : LightCacheLayout) (e : LightEdit) (entry : LightQueueEntry) : LightEdit :=
  if layout.encodes entry.blockPos then { e with decrease := e.decrease ++ [entry] } else e

end LightEdit

namespace LightWindow

variable (w : LightWindow)

/-- Air where no section is populated. -/
def getBlockState (p : BlockPos) : w.blocks.State := if w.layout.inside p then w.states p else w.blocks.air

def emission (p : BlockPos) : Nat := w.blocks.lightEmission (w.getBlockState p) &&& maxLightLevel

def opacity (p : BlockPos) : Nat := w.blocks.lightOpacity (w.getBlockState p)

def shapeFlags (p : BlockPos) : LightQueueFlags :=
  { hasSidedTransparentBlocks := !(w.blocks.lightOcclusionShape (w.getBlockState p)).isEmpty }

/-- The state that an entry spreads from: air when its shape plays no part. -/
def sourceState (entry : LightQueueEntry) : w.blocks.State :=
  if entry.flags.hasSidedTransparentBlocks then w.getBlockState entry.blockPos else w.blocks.air

def targetLevel (level : Nat) (source : w.blocks.State) (target : BlockPos) (d : LightAxisDirection)
    (saturating : Bool) : Option (Nat × LightQueueFlags) :=
  let opacity := w.blocks.lightBlockInto source (w.getBlockState target) d (w.opacity target)
  if opacity = lightBlocked then none
  else if !saturating && decide (opacity ≥ level) then none
  else some (level - opacity, w.shapeFlags target)

/-- A source or a change of opacity, emission or shape at the position. -/
def checkBlock (e : LightEdit) (p : BlockPos) : LightEdit :=
  if !w.layout.cached p then e
  else
    let currentLevel := e.get w.layout p
    let emitted := w.emission p
    let e := e.set w.layout p emitted
    let e :=
      if emitted ≠ 0 then e.enqueueIncrease w.layout ⟨p, emitted, LightAxisDirection.all, w.shapeFlags p⟩ else e
    e.enqueueDecrease w.layout ⟨p, currentLevel, LightAxisDirection.all, {}⟩

/-! ## The queues -/

def decreaseNeighbor (entry : LightQueueEntry) (e : LightEdit) (d : LightAxisDirection) : LightEdit :=
  let p := entry.blockPos.step d
  if !w.layout.cached p || !w.layout.inside p then e
  else
    let currentLevel := e.get w.layout p
    if currentLevel = 0 then e
    else
      match w.targetLevel entry.level (w.sourceState entry) p d true with
      | none => e
      | some (target, flags) =>
        if currentLevel > target then
          e.enqueueIncrease w.layout ⟨p, currentLevel, LightAxisDirection.all, { flags with recheckLevel := true }⟩
        else
          let emitted := w.emission p
          let e :=
            if emitted ≠ 0 then
              e.enqueueIncrease w.layout ⟨p, emitted, LightAxisDirection.all, { flags with writeLevel := true }⟩
            else e
          let e := e.set w.layout p 0
          if target > 0 then e.enqueueDecrease w.layout ⟨p, target, .allExceptOpposite d, flags⟩ else e

/-- One turn of the loop of `perform_light_decrease`. -/
def decreaseStep (e : LightEdit) : Option LightEdit :=
  match e.decrease with
  | [] => none
  | entry :: rest =>
    let e := { e with decrease := rest }
    if w.layout.cached entry.blockPos then some (entry.directions.foldl (w.decreaseNeighbor entry) e) else some e

def increaseNeighbor (entry : LightQueueEntry) (e : LightEdit) (d : LightAxisDirection) : LightEdit :=
  let p := entry.blockPos.step d
  if !w.layout.cached p || !w.layout.inside p then e
  else
    let currentLevel := e.get w.layout p
    if currentLevel ≥ entry.level - 1 then e
    else
      match w.targetLevel entry.level (w.sourceState entry) p d false with
      | none => e
      | some (target, flags) =>
        if target ≤ currentLevel then e
        else
          let e := e.set w.layout p target
          if target > 1 then e.enqueueIncrease w.layout ⟨p, target, .allExceptOpposite d, flags⟩ else e

/-- One turn of the loop of `perform_light_increase`. -/
def increaseStep (e : LightEdit) : Option LightEdit :=
  match e.increase with
  | [] => none
  | entry :: rest =>
    let e := { e with increase := rest }
    if !w.layout.cached entry.blockPos then some e
    else if entry.flags.recheckLevel && decide (e.get w.layout entry.blockPos ≠ entry.level) then some e
    else
      let e :=
        if !entry.flags.recheckLevel && entry.flags.writeLevel then e.set w.layout entry.blockPos entry.level else e
      some (entry.directions.foldl (w.increaseNeighbor entry) e)

def performLightIncrease (fuel : Nat) (e : LightEdit) : Option LightEdit := drain w.increaseStep fuel e

def performLightDecrease (fuel : Nat) (e : LightEdit) : Option LightEdit :=
  (drain w.decreaseStep fuel e).bind (w.performLightIncrease fuel)

/-- `propagate_block_light_changes`, once the sections are there. -/
def propagateBlockLightChanges (fuel : Nat) (levels : BlockPos → Nat) (positions : List BlockPos) :
    Option LightEdit :=
  w.performLightDecrease fuel (positions.foldl w.checkBlock ⟨levels, [], []⟩)

end LightWindow

end Foton.Light

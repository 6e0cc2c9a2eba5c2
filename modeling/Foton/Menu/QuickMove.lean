import Foton.Item.Same
import Foton.Lib.RangeWalk
import Mathlib.Logic.Function.Basic

/-!
# Quick move

A shift-click moves the stack of a slot into the target ranges of its route:
onto stacks of the same item first and then into one empty slot. The first
range that takes anything ends a turn, and turns are taken while the slot holds
the same item.
-/

namespace Foton

inductive FillDirection where
  | forward
  | backward
  deriving DecidableEq

inductive FakeResultRemainderPolicy where
  | drop
  | keep
  deriving DecidableEq

abbrev MenuContents (P α : Type) : Type := P → ItemStack α

/-- A slot of a menu; its position is where its stack is kept. -/
structure QuickSlot (P α : Type) where
  position : P
  maxStackSize : Int
  mayPlace : ItemStack α → Bool
  mayPickup : MenuContents P α → Bool
  isFake : Bool
  maxStackSize_pos : 0 < maxStackSize

/-- A range of slots of a menu. -/
structure SlotRange where
  start : Nat
  stop : Nat

structure Route where
  source : SlotRange
  targets : List SlotRange
  direction : FillDirection
  fakeResultRemainder : FakeResultRemainderPolicy

structure QuickMenu (P α : Type) where
  slots : Nat → QuickSlot P α
  routes : List Route

/-- What taking a result does to the stacks: the handler of the result, and where what is left of it goes. -/
structure ResultHandler (P α : Type) where
  onResultTaken : MenuContents P α → MenuContents P α × Option (ItemStack α)
  addItemOrDrop : MenuContents P α → ItemStack α → MenuContents P α
  dropItem : MenuContents P α → ItemStack α → MenuContents P α

section

variable {P α : Type} [DecidableEq P] [BEq α]

def QuickSlot.getMaxStackSizeForItem (slot : QuickSlot P α) (stack : ItemStack α) : Int := min slot.maxStackSize stack.maxStackSize

/-- The stacks, the stack that is moved, and whether anything moved. -/
structure MoveState (P α : Type) where
  contents : MenuContents P α
  stack : ItemStack α
  changed : Bool

namespace QuickMenu

variable (menu : QuickMenu P α) (handler : ResultHandler P α)

/-- A slot that shows the position the stack comes from. -/
def aliases (source dest : Nat) : Bool :=
  dest = source || (menu.slots dest).position = (menu.slots source).position

/-- A turn of the first pass, onto stacks of the same item. -/
def mergeVisit (source dest : Nat) (e : MoveState P α) : MoveState P α × Bool :=
  if e.stack.isEmpty then (e, false)
  else if menu.aliases source dest then (e, true)
  else
    let slot := menu.slots dest
    let target := e.contents slot.position
    if !target.isEmpty && ItemStack.isSameItemSameComponents e.stack target then
      let totalStack := target.count + e.stack.count
      let maxStackSize := slot.getMaxStackSizeForItem target
      if totalStack ≤ maxStackSize then
        (⟨Function.update e.contents slot.position (target.setCount totalStack), e.stack.setCount 0, true⟩, true)
      else if target.count < maxStackSize then
        (⟨Function.update e.contents slot.position (target.setCount maxStackSize),
          e.stack.shrink (maxStackSize - target.count), true⟩, true)
      else (e, true)
    else (e, true)

/-- A turn of the second pass, into the first empty slot. -/
def placeVisit (source dest : Nat) (e : MoveState P α) : MoveState P α × Bool :=
  if menu.aliases source dest then (e, true)
  else
    let slot := menu.slots dest
    if (e.contents slot.position).isEmpty && slot.mayPlace e.stack then
      let toPlace := min e.stack.count (slot.getMaxStackSizeForItem e.stack)
      let (placed, left) := e.stack.split toPlace
      (⟨Function.update e.contents slot.position placed, left, true⟩, false)
    else (e, true)

def moveItemStackTo (source : Nat) (target : SlotRange) (direction : FillDirection) (e : MoveState P α) : MoveState P α :=
  if target.stop ≤ target.start then { e with changed := false }
  else
    let backwards := decide (direction = .backward)
    let first := if backwards then target.stop - 1 else target.start
    let pass := fun visit e => walk backwards target.start target.stop visit (target.stop - target.start) first e
    let e := { e with changed := false }
    let e := if e.stack.isStackable then pass (menu.mergeVisit source) e else e
    if e.stack.isEmpty then e else pass (menu.placeVisit source) e

/-- The targets until one of them takes anything. -/
def moveToTargets (source : Nat) (direction : FillDirection) : List SlotRange → MoveState P α → MoveState P α
  | [], e => { e with changed := false }
  | target :: rest, e =>
    let e := menu.moveItemStackTo source target direction e
    if e.changed then e else moveToTargets source direction rest e

/-- A fake slot is recomputed, unless it was emptied. -/
def updateQuickMoveSource (source : Nat) (remaining : ItemStack α) (contents : MenuContents P α) : MenuContents P α :=
  if remaining.isEmpty then Function.update contents (menu.slots source).position .empty
  else if (menu.slots source).isFake then contents
  else Function.update contents (menu.slots source).position remaining

/-- Taking from a slot that is not fake changes no stack. -/
def onTake (source : Nat) (policy : FakeResultRemainderPolicy) (remaining : ItemStack α) (contents : MenuContents P α) :
    MenuContents P α :=
  if (menu.slots source).isFake then
    let (contents, leftover) := handler.onResultTaken contents
    let contents := match leftover with
      | some leftover => handler.addItemOrDrop contents leftover
      | none => contents
    if !remaining.isEmpty && policy = .drop then handler.dropItem contents remaining else contents
  else contents

def findRoute (slotIndex : Nat) : Option Route :=
  menu.routes.find? fun r => decide (r.source.start ≤ slotIndex) && decide (slotIndex < r.source.stop)

/-- The item that was in the slot, or empty if nothing moved. -/
def quickMove (source : Nat) (contents : MenuContents P α) : ItemStack α × MenuContents P α :=
  match menu.findRoute source with
  | none => (.empty, contents)
  | some route =>
    let clicked := contents (menu.slots source).position
    if clicked.isEmpty then (.empty, contents)
    else if !(menu.slots source).mayPickup contents then (.empty, contents)
    else
      let e := menu.moveToTargets source route.direction route.targets ⟨contents, clicked, false⟩
      if !e.changed then (.empty, e.contents)
      else
        let contents := menu.updateQuickMoveSource source e.stack e.contents
        if e.stack.count = clicked.count then (.empty, contents)
        else (clicked, menu.onTake handler source route.fakeResultRemainder e.stack contents)

/-- The loop of `do_quick_move`; `none` where the fuel does not suffice. -/
def quickMoveAgain (source : Nat) : Nat → ItemStack α × MenuContents P α → Option (MenuContents P α)
  | 0, _ => none
  | fuel + 1, (result, contents) =>
    if result.isEmpty then some contents
    else if !ItemStack.isSameItem (contents (menu.slots source).position) result then some contents
    else quickMoveAgain source fuel (menu.quickMove handler source contents)

def doQuickMove (source : Nat) (fuel : Nat) (contents : MenuContents P α) : Option (MenuContents P α) :=
  let initialItem := contents (menu.slots source).position
  if !(menu.slots source).mayPickup contents then some contents
  else if initialItem.isEmpty then some contents
  else menu.quickMoveAgain handler source fuel (menu.quickMove handler source contents)

end QuickMenu

end

end Foton

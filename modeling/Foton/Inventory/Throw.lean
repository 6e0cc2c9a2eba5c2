import Foton.Inventory.Refill

/-!
# Throwing a stack

The drop key takes a stack out of a slot and drops it into the world. A drop
that the world refuses goes back into the inventory, and the loop for a whole
stack goes on while the slot holds the same item.
-/

namespace Foton

variable {α : Type} [BEq α]

inductive DropAnswer where
  | accepted
  | refused
  | cancelled
  deriving DecidableEq

/-- The answers of the world and the player, by the number of drops before. -/
structure DropWorld where
  answer : Nat → DropAnswer
  canDropItems : Nat → Bool

/-- A slot of a menu. What it lets a player pick up depends on the item, not on its count. -/
structure ThrowSlot (α : Type) where
  backing : Option (Fin 43)
  mayPickup : ItemStack α → Bool
  mayPickup_setCount : ∀ s n, s.isEmpty = false → 0 < n → mayPickup (s.setCount n) = mayPickup s

/-- The inventory, the stack of a slot outside of it, and what has been dropped. -/
structure ThrowState (α : Type) where
  inventory : PlayerInventory α
  elsewhere : ItemStack α
  dropped : List (ItemStack α)
  drops : Nat

namespace ThrowSlot

variable (slot : ThrowSlot α) (world : DropWorld)

def getItem (s : ThrowState α) : ItemStack α :=
  match slot.backing with
  | some i => s.inventory.items i
  | none => s.elsewhere

def setItem (s : ThrowState α) (stack : ItemStack α) : ThrowState α :=
  match slot.backing with
  | some i => { s with inventory := { s.inventory with items := Function.update s.inventory.items i stack } }
  | none => { s with elsewhere := stack }

/-- Both callers pass `i32::MAX` as the most to take, which limits nothing. -/
def safeTake (s : ThrowState α) (amount : Int) : ItemStack α × ThrowState α :=
  let item := slot.getItem s
  if !slot.mayPickup item then (.empty, s)
  else if amount ≤ 0 || item.isEmpty then (.empty, s)
  else
    let (result, left) := item.split amount
    if result.isEmpty then (.empty, slot.setItem s left)
    else if left.isEmpty then (result, slot.setItem s .empty)
    else (result, slot.setItem s left)

end ThrowSlot

namespace ThrowState

/-- What does not fit into the inventory is only logged. -/
def restoreUndroppedItem (s : ThrowState α) (item : ItemStack α) : ThrowState α :=
  if item.isEmpty then s else { s with inventory := (s.inventory.add item).1 }

def dropItem (world : DropWorld) (s : ThrowState α) (item : ItemStack α) : ThrowState α :=
  if item.isEmpty then s
  else
    match world.answer s.drops with
    | .accepted => { s with dropped := item :: s.dropped, drops := s.drops + 1 }
    | .refused => restoreUndroppedItem { s with drops := s.drops + 1 } item
    -- The entity is taken out of the world again.
    | .cancelled => restoreUndroppedItem { s with drops := s.drops + 1 } item

end ThrowState

section
variable (slot : ThrowSlot α) (world : DropWorld)

/-- The loop of a whole stack; `none` where the fuel does not suffice. -/
def throwAgain (dropped : ItemStack α) : Nat → ThrowState α → Option (ThrowState α)
  | 0, _ => none
  | fuel + 1, s =>
    let current := slot.getItem s
    if !slot.mayPickup current then some s
    else if !world.canDropItems s.drops then some s
    else if current.isEmpty || !ItemStack.isSameItem current dropped then some s
    else
      let (more, s) := slot.safeTake s current.count
      if more.isEmpty then some s else throwAgain dropped fuel (s.dropItem world more)

def doThrow (carried : ItemStack α) (wholeStack : Bool) (fuel : Nat) (s : ThrowState α) : Option (ThrowState α) :=
  if !carried.isEmpty then some s
  else if !slot.mayPickup (slot.getItem s) then some s
  else if !world.canDropItems s.drops then some s
  else
    let amount := if wholeStack then (slot.getItem s).count else 1
    let (dropped, s) := slot.safeTake s amount
    let s := s.dropItem world dropped
    if wholeStack then throwAgain slot world dropped fuel s else some s

end

/-! ## Taking and dropping -/

namespace ThrowState

def units (kind : ItemKind α) (s : ThrowState α) : Int :=
  s.inventory.units kind + kind.units s.elsewhere + (s.dropped.map kind.units).sum

variable {slot : ThrowSlot α} {world : DropWorld} {s s' : ThrowState α} {stack dropped : ItemStack α} {i : Fin 43}

/-- The state with the slot emptied. -/
def emptied (slot : ThrowSlot α) (s : ThrowState α) : ThrowState α := slot.setItem s .empty

omit [BEq α] in
theorem getItem_emptied : (slot.getItem (s.emptied slot)).isEmpty = true := by
  unfold emptied ThrowSlot.getItem ThrowSlot.setItem
  cases slot.backing with
  | none => exact PlayerInventory.empty_isEmpty
  | some i =>
    dsimp only
    rw [Function.update_self]
    exact PlayerInventory.empty_isEmpty

omit [BEq α] in
theorem safeTake_all (hpickup : slot.mayPickup (slot.getItem s) = true) (hitem : (slot.getItem s).isEmpty = false) :
    slot.safeTake s (slot.getItem s).count = (slot.getItem s, s.emptied slot) := by
  have hcount := (ItemStack.not_isEmpty_iff.mp hitem).2
  have hleft : ((slot.getItem s).shrink (slot.getItem s).count).isEmpty = true := by
    unfold ItemStack.shrink
    rw [ItemStack.isEmpty_setCount hitem]
    omega
  unfold ThrowSlot.safeTake emptied
  simp [hpickup, hitem, hcount, ItemStack.split, hleft]

theorem units_emptied (kind : ItemKind α) : (s.emptied slot).units kind + kind.units (slot.getItem s) = s.units kind := by
  have hempty : kind.units .empty = 0 := kind.units_of_isEmpty PlayerInventory.empty_isEmpty
  unfold emptied units ThrowSlot.getItem ThrowSlot.setItem
  cases slot.backing with
  | none =>
    dsimp only
    rw [hempty]
    ring
  | some i =>
    dsimp only
    unfold PlayerInventory.units
    dsimp only
    rw [sum_update, hempty]
    ring

theorem dropItem_accepted (hstack : stack.isEmpty = false) (h : world.answer s.drops = .accepted) :
    s.dropItem world stack = { s with dropped := stack :: s.dropped, drops := s.drops + 1 } := by
  unfold dropItem
  rw [hstack, if_neg Bool.false_ne_true, h]

theorem dropItem_refused (hstack : stack.isEmpty = false) (h : world.answer s.drops ≠ .accepted) :
    s.dropItem world stack = { s with inventory := (s.inventory.add stack).1, drops := s.drops + 1 } := by
  unfold dropItem restoreUndroppedItem
  rw [hstack, if_neg Bool.false_ne_true, if_neg Bool.false_ne_true]
  cases hanswer : world.answer s.drops with
  | accepted => exact absurd hanswer h
  | refused => rfl
  | cancelled => rfl

theorem units_accepted (kind : ItemKind α) : ({ s with dropped := stack :: s.dropped, drops := s.drops + 1 } : ThrowState α).units kind =
    s.units kind + kind.units stack := by
  simp only [units, List.map_cons, List.sum_cons]
  ring

theorem units_restored (kind : ItemKind α) : ({ s with inventory := (s.inventory.add stack).1, drops := s.drops + 1 } : ThrowState α).units kind =
    s.units kind - s.inventory.units kind + (s.inventory.add stack).1.units kind := by
  simp only [units]
  ring

theorem dropItem_units_le (hstack : stack.isEmpty = false) : (s.dropItem world stack).units .all ≤ s.units .all + ItemKind.all.units stack := by
  by_cases h : world.answer s.drops = .accepted
  · rw [dropItem_accepted hstack h, units_accepted]
  · have hle : (s.inventory.add stack).1.units .all ≤ s.inventory.units .all + ItemKind.all.units stack :=
      PlayerInventory.add_units_le hstack
    rw [dropItem_refused hstack h, units_restored]
    omega

/-! ## The loop -/

theorem throwAgain_empty (hempty : (slot.getItem s).isEmpty = true) (fuel : Nat) : throwAgain slot world dropped (fuel + 1) s = some s := by
  unfold throwAgain
  simp [hempty]

theorem throwAgain_turn (hpickup : slot.mayPickup (slot.getItem s) = true) (hdrop : world.canDropItems s.drops = true)
    (hitem : (slot.getItem s).isEmpty = false) (hsame : ItemStack.isSameItem (slot.getItem s) dropped = true) (fuel : Nat) :
    throwAgain slot world dropped (fuel + 1) s = throwAgain slot world dropped fuel ((s.emptied slot).dropItem world (slot.getItem s)) := by
  rw [throwAgain, hpickup, hdrop, hitem, hsame, safeTake_all hpickup hitem]
  simp [hitem]

theorem throwAgain_units_le {fuel : Nat} (h : throwAgain slot world dropped fuel s = some s') : s'.units .all ≤ s.units .all := by
  induction fuel generalizing s with
  | zero => cases h
  | succ fuel ih =>
    by_cases hstop : slot.mayPickup (slot.getItem s) = true ∧ world.canDropItems s.drops = true ∧ (slot.getItem s).isEmpty = false ∧
        ItemStack.isSameItem (slot.getItem s) dropped = true
    · obtain ⟨hpickup, hdrop, hitem, hsame⟩ := hstop
      rw [throwAgain_turn hpickup hdrop hitem hsame] at h
      have hunits : (s.emptied slot).units .all + ItemKind.all.units (slot.getItem s) = s.units .all := units_emptied .all
      have hle : ((s.emptied slot).dropItem world (slot.getItem s)).units .all ≤ (s.emptied slot).units .all + ItemKind.all.units (slot.getItem s) :=
        dropItem_units_le hitem
      exact (ih h).trans (hle.trans_eq hunits)
    · have hend : throwAgain slot world dropped (fuel + 1) s = some s := by
        unfold throwAgain
        dsimp only
        split
        · rfl
        · rename_i hpickup
          split
          · rfl
          · rename_i hdrop
            split
            · rfl
            · rename_i hitem
              refine absurd ⟨?_, ?_, ?_, ?_⟩ hstop <;> simp_all
      rw [hend] at h
      exact (congrArg (units .all) (Option.some.inj h)).symm.le

end ThrowState

end Foton

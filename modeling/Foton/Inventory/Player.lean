import Foton.Item.Same
import Foton.Lib.Pour
import Mathlib.Data.List.FinRange

/-!
# The inventory of a player

A stack is added to the stacks that merge with it, the selected one and the
off-hand first, and then to the empty main slots.
-/

namespace Foton

variable {α : Type} [BEq α]

structure PlayerInventory (α : Type) where
  items : Fin 43 → ItemStack α
  selected : Fin 9

namespace PlayerInventory

def inventorySize : Nat := 36

def slotOffhand : Fin 43 := 40

/-- The first slot of the hotbar. -/
def slotHotbar : Fin 43 := 0

/-- The hotbar and the main storage. -/
def mainSlots : List (Fin 43) := (List.finRange inventorySize).map (Fin.castLE (by decide))

def selectedSlot (inv : PlayerInventory α) : Fin 43 := Fin.castLE (by decide) inv.selected

/-- What a container holds in one slot, and with it what the item allows. -/
def getMaxStackSizeForItem (stack : ItemStack α) : Int := min 99 stack.maxStackSize

/-- The slots and what is left of the stack. -/
abbrev AddState (α : Type) : Type := (Fin 43 → ItemStack α) × ItemStack α

def mergeStack (maxSize : Int) (e : AddState α) (slot : Fin 43) : AddState α :=
  if e.2.isEmpty then e
  else if !(e.1 slot).isEmpty && ItemStack.isSameItemSameComponents (e.1 slot) e.2 then
    let space := maxSize - (e.1 slot).size
    if 0 < space then
      let toAdd := min e.2.size space
      (Function.update e.1 slot ((e.1 slot).grow toAdd), e.2.shrink toAdd)
    else e
  else e

def placeStack (maxSize : Int) (e : AddState α) (slot : Fin 43) : AddState α :=
  if e.2.isEmpty then e
  else if (e.1 slot).isEmpty then
    let (placed, rest) := e.2.split (min e.2.size maxSize)
    (Function.update e.1 slot placed, rest)
  else e

/-- The inventory and what did not fit. -/
def add (inv : PlayerInventory α) (stack : ItemStack α) : PlayerInventory α × ItemStack α :=
  if stack.isEmpty then (inv, stack)
  else
    let maxSize := getMaxStackSizeForItem stack
    let e : AddState α := (inv.items, stack)
    let e :=
      if stack.isStackable then
        let e := [inv.selectedSlot, slotOffhand].foldl (mergeStack maxSize) e
        mainSlots.foldl (fun e slot => if slot = inv.selectedSlot then e else mergeStack maxSize e slot) e
      else e
    let e := mainSlots.foldl (placeStack maxSize) e
    ({ inv with items := e.1 }, e.2)

end PlayerInventory

/-! ## Adding pours the stack into the slots -/

namespace PlayerInventory

variable {inv : PlayerInventory α} {stack c : ItemStack α} {size : Nat}

/-- The slots that are tried for merging, in order. -/
def mergeSlots (inv : PlayerInventory α) : List (Fin 43) :=
  inv.selectedSlot :: slotOffhand :: mainSlots.filter fun slot => !decide (slot = inv.selectedSlot)

def mergeRoom (stack : ItemStack α) (maxSize : Int) (c : ItemStack α) : Nat :=
  if !c.isEmpty && ItemStack.isSameItemSameComponents c stack then (maxSize - c.size).toNat else 0

def placeRoom (maxSize : Int) (c : ItemStack α) : Nat :=
  if c.isEmpty then maxSize.toNat else 0

/-- A slot after some of a stack has been put into it. -/
def fillSlot (stack c : ItemStack α) (amount : Nat) : ItemStack α :=
  if amount = 0 then c else if c.isEmpty then stack.setCount amount else c.grow amount

omit [BEq α] in
@[simp]
theorem fillSlot_zero (stack c : ItemStack α) : fillSlot stack c 0 = c := if_pos rfl

omit [BEq α] in
theorem mergeSlots_nodup (inv : PlayerInventory α) : inv.mergeSlots.Nodup := by
  have hall : ∀ selected : Fin 9, (Fin.castLE (by decide) selected :: slotOffhand ::
      mainSlots.filter fun slot => !decide (slot = (Fin.castLE (by decide) selected : Fin 43))).Nodup := by decide
  exact hall inv.selected

theorem mainSlots_nodup : mainSlots.Nodup := by decide

theorem mergeStack_eq (hstack : stack.isEmpty = false) (maxSize : Int) (items : Fin 43 → ItemStack α) (amount : Nat) (slot : Fin 43) :
    mergeStack maxSize (items, stack.setCount amount) slot =
      ((pourInto (mergeRoom stack maxSize) (fillSlot stack) (items, amount) slot).1,
        stack.setCount (pourInto (mergeRoom stack maxSize) (fillSlot stack) (items, amount) slot).2) := by
  unfold mergeStack pourInto
  dsimp only
  rcases Nat.eq_zero_or_pos amount with rfl | hpos
  · have hempty : (stack.setCount (0 : Nat)).isEmpty = true := (ItemStack.isEmpty_setCount hstack).mpr (Int.le_refl 0)
    rw [if_pos hempty]
    simp
  · rw [ItemStack.not_isEmpty_setCount hstack (by exact_mod_cast hpos), ItemStack.isSame_setCount_right hstack (by exact_mod_cast hpos), ItemStack.size_setCount hstack (by omega)]
    simp only [Bool.false_eq_true, if_false]
    unfold mergeRoom
    split
    · rename_i hmerge
      rw [Bool.and_eq_true, Bool.not_eq_true'] at hmerge
      split
      · rename_i hspace
        have hmin : (min (amount : Int) (maxSize - (items slot).size)) = (min amount (maxSize - (items slot).size).toNat : Nat) := by
          omega
        have hfill : min amount (maxSize - (items slot).size).toNat ≠ 0 := by omega
        rw [hmin, fillSlot, if_neg hfill, hmerge.1, ItemStack.shrink, ItemStack.setCount_setCount, ItemStack.count_setCount,
          Nat.cast_sub (Nat.min_le_left ..)]
        simp
      · rename_i hspace
        have hzero : (maxSize - (items slot).size).toNat = 0 := by omega
        simp [hzero]
    · simp

omit [BEq α] in
theorem placeStack_eq (hstack : stack.isEmpty = false) {maxSize : Int} (hsize : 0 < maxSize) (items : Fin 43 → ItemStack α)
    (amount : Nat) (slot : Fin 43) :
    placeStack maxSize (items, stack.setCount amount) slot =
      ((pourInto (placeRoom maxSize) (fillSlot stack) (items, amount) slot).1,
        stack.setCount (pourInto (placeRoom maxSize) (fillSlot stack) (items, amount) slot).2) := by
  unfold placeStack pourInto
  dsimp only
  rcases Nat.eq_zero_or_pos amount with rfl | hpos
  · have hempty : (stack.setCount (0 : Nat)).isEmpty = true := (ItemStack.isEmpty_setCount hstack).mpr (Int.le_refl 0)
    rw [if_pos hempty]
    simp
  · rw [ItemStack.not_isEmpty_setCount hstack (by exact_mod_cast hpos), ItemStack.size_setCount hstack (by omega)]
    simp only [Bool.false_eq_true, if_false]
    unfold placeRoom
    split
    · rename_i hempty
      have hmin : min (min (amount : Int) maxSize) amount = (min amount maxSize.toNat : Nat) := by omega
      have hfill : min amount maxSize.toNat ≠ 0 := by omega
      simp only [ItemStack.split, ItemStack.shrink, ItemStack.setCount_setCount, ItemStack.count_setCount]
      rw [hmin, fillSlot, if_neg hfill, if_pos hempty, Nat.cast_sub (Nat.min_le_left ..)]
    · simp

omit [BEq α] in
theorem foldl_eq_pour {step : AddState α → Fin 43 → AddState α} {room : ItemStack α → Nat} (hstep : ∀ items (amount : Nat) slot,
    step (items, stack.setCount amount) slot = ((pourInto room (fillSlot stack) (items, amount) slot).1,
      stack.setCount (pourInto room (fillSlot stack) (items, amount) slot).2)) (slots : List (Fin 43))
    (items : Fin 43 → ItemStack α) (amount : Nat) :
    slots.foldl step (items, stack.setCount amount) = ((pour room (fillSlot stack) slots items amount).1,
      stack.setCount (pour room (fillSlot stack) slots items amount).2) := by
  induction slots generalizing items amount with
  | nil => rfl
  | cons slot slots ih => rw [List.foldl_cons, hstep, ih, pour_cons, pourInto]

/-- The slots that a stack may merge into. -/
def mergePlaces (inv : PlayerInventory α) (stack : ItemStack α) : List (Fin 43) :=
  if stack.isStackable then inv.mergeSlots else []

/-- The slots after merging, and the count that is left. -/
def merged (inv : PlayerInventory α) (stack : ItemStack α) : (Fin 43 → ItemStack α) × Nat :=
  pour (mergeRoom stack (getMaxStackSizeForItem stack)) (fillSlot stack) (inv.mergePlaces stack) inv.items stack.count.toNat

def placed (inv : PlayerInventory α) (stack : ItemStack α) : (Fin 43 → ItemStack α) × Nat :=
  pour (placeRoom (getMaxStackSizeForItem stack)) (fillSlot stack) mainSlots (inv.merged stack).1 (inv.merged stack).2

omit [BEq α] in
theorem setCount_toNat (hstack : stack.isEmpty = false) : stack.setCount stack.count.toNat = stack := by
  have := (ItemStack.not_isEmpty_iff.mp hstack).2
  rw [Int.toNat_of_nonneg (by omega), ItemStack.setCount_count]

theorem foldl_mergeStack (hstack : stack.isEmpty = false) :
    (if stack.isStackable then
      mainSlots.foldl (fun e slot => if slot = inv.selectedSlot then e else mergeStack (getMaxStackSizeForItem stack) e slot)
        ([inv.selectedSlot, slotOffhand].foldl (mergeStack (getMaxStackSizeForItem stack)) (inv.items, stack))
    else (inv.items, stack)) = ((inv.merged stack).1, stack.setCount (inv.merged stack).2) := by
  unfold merged mergePlaces
  split
  · have hskip : (fun (e : AddState α) slot => if slot = inv.selectedSlot then e
        else mergeStack (getMaxStackSizeForItem stack) e slot) =
        fun e slot => if (!decide (slot = inv.selectedSlot)) = true then mergeStack (getMaxStackSizeForItem stack) e slot
          else e := by
      funext e slot
      by_cases h : slot = inv.selectedSlot <;> simp [h]
    have hpour := foldl_eq_pour (mergeStack_eq hstack (getMaxStackSizeForItem stack)) inv.mergeSlots inv.items stack.count.toNat
    rw [setCount_toNat hstack] at hpour
    rw [hskip, ← List.foldl_filter, ← hpour]
    rfl
  · rw [pour, List.foldl_nil, setCount_toNat hstack]

theorem add_eq (hstack : stack.isEmpty = false) (hsize : 0 < getMaxStackSizeForItem stack) :
    inv.add stack = ({ inv with items := (inv.placed stack).1 }, stack.setCount (inv.placed stack).2) := by
  have hplaced := foldl_eq_pour (placeStack_eq hstack hsize) mainSlots (inv.merged stack).1 (inv.merged stack).2
  unfold add placed
  rw [hstack, if_neg Bool.false_ne_true]
  dsimp only
  rw [foldl_mergeStack hstack, hplaced]

/-- The room for merging, and that of the empty slots of a list. -/
def mergeable (inv : PlayerInventory α) (stack : ItemStack α) : Nat :=
  roomOf (mergeRoom stack (getMaxStackSizeForItem stack)) (inv.mergePlaces stack) inv.items

def placeable (inv : PlayerInventory α) (stack : ItemStack α) (slots : List (Fin 43)) : Nat :=
  roomOf (placeRoom (getMaxStackSizeForItem stack)) slots inv.items

omit [BEq α] in
theorem mergePlaces_nodup (inv : PlayerInventory α) (stack : ItemStack α) : (inv.mergePlaces stack).Nodup := by
  unfold mergePlaces
  split
  · exact mergeSlots_nodup inv
  · exact List.nodup_nil

theorem fillSlot_merge {amount : Nat} {maxSize : Int} (h : amount ≤ mergeRoom stack maxSize c) :
    amount = 0 ∨ c.isEmpty = false ∧ ItemStack.isSameItemSameComponents c stack = true ∧ fillSlot stack c amount = c.grow amount := by
  unfold mergeRoom at h
  split at h
  · rename_i hmerge
    rw [Bool.and_eq_true, Bool.not_eq_true'] at hmerge
    rcases Nat.eq_zero_or_pos amount with hzero | hpos
    · exact Or.inl hzero
    · refine Or.inr ⟨hmerge.1, hmerge.2, ?_⟩
      simp [fillSlot, hmerge.1, hpos.ne']
  · exact Or.inl (Nat.le_zero.mp h)

theorem merged_isEmpty (j : Fin 43) : ((inv.merged stack).1 j).isEmpty = (inv.items j).isEmpty := by
  refine pour_keeps (fun c amount h => ?_) j
  rcases fillSlot_merge h with rfl | ⟨hc, -, hfill⟩
  · rw [fillSlot_zero]
  · have := (ItemStack.not_isEmpty_iff.mp hc).2
    rw [hfill, hc, ItemStack.grow, ItemStack.not_isEmpty_setCount hc (by omega)]

theorem placeRoom_merged {maxSize : Int} (j : Fin 43) : placeRoom maxSize ((inv.merged stack).1 j) = placeRoom maxSize (inv.items j) := by
  unfold placeRoom
  rw [merged_isEmpty]

theorem merged_rest : (inv.merged stack).2 = stack.count.toNat - inv.mergeable stack :=
  pour_rest (mergePlaces_nodup inv stack)

theorem placed_rest : (inv.placed stack).2 = stack.count.toNat - (inv.mergeable stack + inv.placeable stack mainSlots) := by
  have hroom : roomOf (placeRoom (getMaxStackSizeForItem stack)) mainSlots (inv.merged stack).1 = inv.placeable stack mainSlots :=
    roomOf_congr fun j _ => placeRoom_merged j
  unfold placed
  rw [pour_rest mainSlots_nodup, hroom, merged_rest, Nat.sub_sub]

theorem placed_at {before after : List (Fin 43)} {i : Fin 43} (hslots : mainSlots = before ++ i :: after)
    (hempty : (inv.items i).isEmpty = true) :
    (inv.placed stack).1 i = fillSlot stack ((inv.merged stack).1 i)
      (min (stack.count.toNat - (inv.mergeable stack + inv.placeable stack before)) (getMaxStackSizeForItem stack).toNat) := by
  have hnodup := mainSlots_nodup
  have hroom : roomOf (placeRoom (getMaxStackSizeForItem stack)) before (inv.merged stack).1 = inv.placeable stack before :=
    roomOf_congr fun j _ => placeRoom_merged j
  unfold placed
  rw [hslots] at hnodup ⊢
  rw [pour_at hnodup, hroom, merged_rest, Nat.sub_sub, placeRoom, merged_isEmpty, if_pos hempty]

end PlayerInventory

/-! ## Nothing is lost but what does not fit -/

/-- A kind of item that neither merging nor splitting tells apart. -/
structure ItemKind (α : Type) [BEq α] where
  holds : ItemStack α → Bool
  setCount : ∀ s n, holds (s.setCount n) = holds s
  merges : ∀ s t, s.isEmpty = false → t.isEmpty = false → ItemStack.isSameItemSameComponents s t = true → holds s = holds t

namespace ItemKind

/-- All items. -/
def all : ItemKind α := ⟨fun _ => true, fun _ _ => rfl, fun _ _ _ _ _ => rfl⟩

def units (kind : ItemKind α) (s : ItemStack α) : Int := if kind.holds s then s.size else 0

theorem units_of_isEmpty (kind : ItemKind α) {s : ItemStack α} (h : s.isEmpty = true) : kind.units s = 0 := by
  unfold units
  rw [ItemStack.size_of_isEmpty h, ite_self]

end ItemKind

namespace PlayerInventory

variable {inv : PlayerInventory α} {stack c : ItemStack α}

def units (kind : ItemKind α) (inv : PlayerInventory α) : Int := ∑ j, kind.units (inv.items j)

/-- Whether a stack counts for a kind, as a weight. -/
def weight (kind : ItemKind α) (stack : ItemStack α) : Int := if kind.holds stack then 1 else 0

theorem units_setCount (kind : ItemKind α) (hstack : stack.isEmpty = false) (amount : Nat) :
    kind.units (stack.setCount amount) = weight kind stack * amount := by
  unfold ItemKind.units weight
  rw [kind.setCount, ItemStack.size_setCount hstack (by omega)]
  split <;> simp

theorem units_grow (kind : ItemKind α) (hc : c.isEmpty = false) (amount : Nat) :
    kind.units (c.grow amount) = kind.units c + weight kind c * amount := by
  have := (ItemStack.not_isEmpty_iff.mp hc).2
  unfold ItemKind.units weight ItemStack.grow
  rw [kind.setCount, ItemStack.size_setCount hc (by omega), ItemStack.size_of_not_isEmpty hc]
  split <;> simp

theorem add_units (kind : ItemKind α) (hstack : stack.isEmpty = false) (hsize : 0 < getMaxStackSizeForItem stack) :
    (inv.add stack).1.units kind + kind.units (inv.add stack).2 = inv.units kind + kind.units stack := by
  have hmerge : ∀ c amount, amount ≤ mergeRoom stack (getMaxStackSizeForItem stack) c →
      kind.units (fillSlot stack c amount) = kind.units c + weight kind stack * amount := by
    intro c amount h
    rcases fillSlot_merge h with rfl | ⟨hc, hsame, hfill⟩
    · simp
    · have hweight : weight kind stack = weight kind c := by
        unfold weight
        rw [kind.merges c stack hc hstack hsame]
      rw [hfill, units_grow kind hc, hweight]
  have hplace : ∀ c amount, amount ≤ placeRoom (getMaxStackSizeForItem stack) c →
      kind.units (fillSlot stack c amount) = kind.units c + weight kind stack * amount := by
    intro c amount h
    unfold placeRoom at h
    rcases Nat.eq_zero_or_pos amount with rfl | hpos
    · simp
    · split at h
      · rename_i hempty
        rw [fillSlot, if_neg hpos.ne', if_pos hempty, units_setCount kind hstack, kind.units_of_isEmpty hempty, zero_add]
      · omega
  have hmerged : (∑ j, kind.units ((inv.merged stack).1 j)) + weight kind stack * (inv.merged stack).2 =
      inv.units kind + weight kind stack * stack.count.toNat := pour_sum hmerge
  have hplaced : (∑ j, kind.units ((inv.placed stack).1 j)) + weight kind stack * (inv.placed stack).2 =
      (∑ j, kind.units ((inv.merged stack).1 j)) + weight kind stack * (inv.merged stack).2 := pour_sum hplace
  have hstart := units_setCount kind hstack stack.count.toNat
  rw [setCount_toNat hstack] at hstart
  rw [add_eq hstack hsize, units_setCount kind hstack, hstart, ← hmerged, ← hplaced]
  rfl

theorem add_units_none (kind : ItemKind α) (hstack : stack.isEmpty = false) (hsize : getMaxStackSizeForItem stack ≤ 0) :
    (inv.add stack).1.units kind = inv.units kind := by
  have hstackable : stack.isStackable = false := by
    have hmax : ¬ 1 < stack.maxStackSize := by
      unfold getMaxStackSizeForItem at hsize
      omega
    simp [ItemStack.isStackable, hmax]
  have hplace : ∀ (slots : List (Fin 43)) (e : AddState α), (∑ j, kind.units ((slots.foldl (placeStack (getMaxStackSizeForItem stack)) e).1 j)) =
      ∑ j, kind.units (e.1 j) := by
    intro slots
    induction slots with
    | nil => exact fun e => rfl
    | cons slot slots ih =>
      intro e
      rw [List.foldl_cons, ih]
      unfold placeStack
      split
      · rfl
      · split
        · rename_i hempty
          have hnone : (e.2.setCount (min (min e.2.size (getMaxStackSizeForItem stack)) e.2.count)).isEmpty = true :=
            ItemStack.isEmpty_iff.mpr (Or.inr (by simp only [ItemStack.count_setCount]; omega))
          dsimp only [ItemStack.split]
          rw [sum_update, kind.units_of_isEmpty hempty, kind.units_of_isEmpty hnone]
          ring
        · rfl
  have hall := hplace mainSlots (inv.items, stack)
  unfold add units
  rw [hstack, if_neg Bool.false_ne_true]
  dsimp only
  rw [hstackable, if_neg Bool.false_ne_true, hall]

end PlayerInventory

end Foton

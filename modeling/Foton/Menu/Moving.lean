import Foton.Menu.QuickMove
import Mathlib.Algebra.BigOperators.Group.List.Basic
import Mathlib.Algebra.Order.BigOperators.Group.List
import Mathlib.Algebra.Order.Ring.Nat

/-!
# Moving a stack into a range

Every turn of a pass fills a slot within its limit or changes nothing. A range
that takes nothing holds no slot that could.
-/

namespace Foton

variable {P α : Type} [BEq α]

/-! ## Stacks of one item -/

namespace ItemStack

variable {a b : ItemStack α}

theorem getInt_of_sameComponents (h : a.SameComponents b) (key : Identifier) : a.getInt key = b.getInt key := by
  have hkey := h key
  unfold getInt
  cases ha : a.getEffectiveValueRaw key with
  | none =>
    cases hb : b.getEffectiveValueRaw key with
    | none => rfl
    | some v =>
      rw [ha, hb] at hkey
      cases hkey
  | some u =>
    cases hb : b.getEffectiveValueRaw key with
    | none =>
      rw [ha, hb] at hkey
      cases hkey
    | some v =>
      rw [ha, hb] at hkey
      cases u with
      | int m =>
        cases v with
        | int n => exact congrArg some (eq_of_beq (α := Int) hkey)
        | other v => exact absurd hkey Bool.false_ne_true
      | other u =>
        cases v with
        | int n => exact absurd hkey Bool.false_ne_true
        | other v => rfl

theorem maxStackSize_of_same (ha : a.isEmpty = false) (h : isSameItemSameComponents a b = true) : a.maxStackSize = b.maxStackSize := by
  obtain ⟨-, hempty | hsame⟩ := isSame_iff.mp h
  · rw [hempty.1] at ha
    cases ha
  · unfold maxStackSize
    rw [getInt_of_sameComponents hsame]

end ItemStack

namespace QuickMenu

variable [DecidableEq P] (menu : QuickMenu P α)

/-- The room that the slots of a list leave below their limits, the source aside. -/
def openRoom (source : Nat) (slots : List Nat) (contents : MenuContents P α) : Nat :=
  (slots.map fun j => if menu.aliases source j then 0
    else ((menu.slots j).maxStackSize - (contents (menu.slots j).position).size).toNat).sum

/-- Slots of a list that show one position have the limit of its container. -/
def SameLimits (slots : List Nat) : Prop :=
  ∀ i ∈ slots, ∀ j ∈ slots, (menu.slots i).position = (menu.slots j).position → (menu.slots i).maxStackSize = (menu.slots j).maxStackSize

/-- What a part of a move does to the stacks and to the stack that is moved. -/
structure Moved (source : Nat) (slots : List Nat) (e e' : MoveState P α) : Prop where
  others : ∀ p, (∀ j ∈ slots, menu.aliases source j = false → (menu.slots j).position ≠ p) → e'.contents p = e.contents p
  stack : e'.stack = e.stack.setCount e'.stack.count
  bounded : ∀ p, e'.contents p = e.contents p ∨
    ∀ j ∈ slots, (menu.slots j).position = p → (e'.contents p).size ≤ (menu.slots j).getMaxStackSizeForItem (e'.contents p)
  grows : ∀ p, (e.contents p).size ≤ (e'.contents p).size
  sized : (∀ p, 0 < (e.contents p).maxStackSize) → ∀ p, 0 < (e'.contents p).maxStackSize
  progress : e' = e ∨ e'.changed = true ∧ 0 ≤ e'.stack.count ∧ e'.stack.count < e.stack.count ∧
    menu.openRoom source slots e'.contents < menu.openRoom source slots e.contents

variable {menu} {source : Nat} {slots : List Nat} {e e' e'' : MoveState P α} {j : Nat}

omit [BEq α] in
theorem Moved.refl (menu : QuickMenu P α) (source : Nat) (slots : List Nat) (e : MoveState P α) : menu.Moved source slots e e :=
  ⟨fun _ _ => rfl, rfl, fun _ => Or.inl rfl, fun _ => Int.le_refl _, fun h => h, Or.inl rfl⟩

omit [BEq α] in
theorem Moved.trans (h : menu.Moved source slots e e') (h' : menu.Moved source slots e' e'') : menu.Moved source slots e e'' where
  others p hp := (h'.others p hp).trans (h.others p hp)
  stack := by
    rw [h'.stack, h.stack]
    rfl
  bounded p := by
    rcases h'.bounded p with heq | hle
    · rw [heq]
      exact h.bounded p
    · exact Or.inr hle
  grows p := (h.grows p).trans (h'.grows p)
  sized hs := h'.sized (h.sized hs)
  progress := by
    rcases h'.progress with rfl | ⟨hchanged, hnonneg, hless, hroom⟩
    · exact h.progress
    · rcases h.progress with rfl | ⟨-, -, hless', hroom'⟩
      · exact Or.inr ⟨hchanged, hnonneg, hless, hroom⟩
      · exact Or.inr ⟨hchanged, hnonneg, hless.trans hless', hroom.trans hroom'⟩

omit [BEq α] in
theorem openRoom_le {contents contents' : MenuContents P α}
    (h : ∀ j ∈ slots, menu.aliases source j = false → (contents (menu.slots j).position).size ≤ (contents' (menu.slots j).position).size) :
    menu.openRoom source slots contents' ≤ menu.openRoom source slots contents := by
  refine List.sum_le_sum fun j hj => ?_
  split
  · exact Nat.le_refl 0
  · rename_i halias
    have := h j hj (by simpa using halias)
    omega

omit [BEq α] in
theorem openRoom_lt {contents contents' : MenuContents P α}
    (h : ∀ p, (contents p).size ≤ (contents' p).size) (hj : j ∈ slots) (halias : menu.aliases source j = false)
    (hlt : (contents (menu.slots j).position).size < (contents' (menu.slots j).position).size)
    (hmax : (contents' (menu.slots j).position).size ≤ (menu.slots j).maxStackSize) :
    menu.openRoom source slots contents' < menu.openRoom source slots contents := by
  refine List.sum_lt_sum _ _ (fun j' _ => ?_) ⟨j, hj, ?_⟩
  · split
    · exact Nat.le_refl 0
    · have := h (menu.slots j').position
      omega
  · rw [halias, if_neg Bool.false_ne_true, if_neg Bool.false_ne_true]
    omega

omit [BEq α] in
theorem moved_update (hlimits : menu.SameLimits slots) (hj : j ∈ slots) (halias : menu.aliases source j = false) {target : ItemStack α} {count : Int}
    (hlt : (e.contents (menu.slots j).position).size < target.size)
    (hmax : target.size ≤ (menu.slots j).getMaxStackSizeForItem target) (hsized : 0 < target.maxStackSize)
    (hnonneg : 0 ≤ count) (hless : count < e.stack.count) :
    menu.Moved source slots e ⟨Function.update e.contents (menu.slots j).position target, e.stack.setCount count, true⟩ where
  others p hp := Function.update_of_ne (fun heq => hp j hj halias heq.symm) ..
  stack := rfl
  bounded p := by
    by_cases hp : p = (menu.slots j).position
    · subst hp
      dsimp only
      rw [Function.update_self]
      refine Or.inr fun j' hmem hj' => ?_
      unfold QuickSlot.getMaxStackSizeForItem at hmax ⊢
      rw [hlimits j' hmem j hj hj']
      exact hmax
    · exact Or.inl (Function.update_of_ne hp ..)
  grows p := by
    by_cases hp : p = (menu.slots j).position
    · subst hp
      dsimp only
      rw [Function.update_self]
      exact hlt.le
    · dsimp only
      rw [Function.update_of_ne hp]
  sized hs p := by
    by_cases hp : p = (menu.slots j).position
    · subst hp
      dsimp only
      rw [Function.update_self]
      exact hsized
    · dsimp only
      rw [Function.update_of_ne hp]
      exact hs p
  progress := by
    refine Or.inr ⟨rfl, hnonneg, hless, openRoom_lt (fun p => ?_) hj halias ?_ ?_⟩
    · by_cases hp : p = (menu.slots j).position
      · subst hp
        dsimp only
        rw [Function.update_self]
        exact hlt.le
      · dsimp only
        rw [Function.update_of_ne hp]
    · dsimp only
      rw [Function.update_self]
      exact hlt
    · dsimp only
      rw [Function.update_self]
      exact hmax.trans (min_le_left ..)

/-! ## Onto stacks of the same item -/

theorem mergeVisit_moved (hlimits : menu.SameLimits slots) (hsized : 0 < e.stack.maxStackSize) (hj : j ∈ slots) :
    menu.Moved source slots e (menu.mergeVisit source j e).1 := by
  unfold mergeVisit
  split
  · exact Moved.refl menu source slots e
  · rename_i hstack
    split
    · exact Moved.refl menu source slots e
    · rename_i halias
      dsimp only
      split
      · rename_i hmerge
        rw [Bool.and_eq_true, Bool.not_eq_true'] at hmerge
        obtain ⟨htarget, hsame⟩ := hmerge
        have hstack' : e.stack.isEmpty = false := by simpa using hstack
        have hcount := (ItemStack.not_isEmpty_iff.mp hstack').2
        have hcount' := (ItemStack.not_isEmpty_iff.mp htarget).2
        have hsize := ItemStack.size_of_not_isEmpty htarget
        have hlimit : 0 < (e.contents (menu.slots j).position).maxStackSize := by
          rw [← ItemStack.maxStackSize_of_same hstack' hsame]
          exact hsized
        split
        · rename_i hfits
          refine moved_update hlimits hj (by simpa using halias) ?_ ?_ hlimit (Int.le_refl 0) hcount
          · rw [ItemStack.size_setCount htarget (by omega)]
            omega
          · rw [ItemStack.size_setCount htarget (by omega)]
            exact hfits
        · rename_i hover
          split
          · rename_i hroom
            refine moved_update hlimits hj (by simpa using halias) ?_ ?_ hlimit ?_ ?_
            · rw [ItemStack.size_setCount htarget (by omega)]
              omega
            · rw [ItemStack.size_setCount htarget (by omega)]
              exact Int.le_refl _
            · omega
            · omega
          · exact Moved.refl menu source slots e
      · exact Moved.refl menu source slots e

/-- A slot that gets nothing from the first pass. -/
def Unmerged (menu : QuickMenu P α) (source : Nat) (stack : ItemStack α) (contents : MenuContents P α) (j : Nat) : Prop :=
  menu.aliases source j = false → (contents (menu.slots j).position).isEmpty = false →
    ItemStack.isSameItemSameComponents stack (contents (menu.slots j).position) = true →
      (menu.slots j).getMaxStackSizeForItem (contents (menu.slots j).position) ≤ (contents (menu.slots j).position).count

theorem unmerged_of_unchanged (hstack : e.stack.isEmpty = false) (h : (menu.mergeVisit source j e).1 = e) (hchanged : e.changed = false) :
    menu.Unmerged source e.stack e.contents j ∧ (menu.mergeVisit source j e).2 = true := by
  unfold mergeVisit at h ⊢
  rw [hstack, if_neg Bool.false_ne_true] at h ⊢
  split
  · rename_i halias
    exact ⟨fun hnot => absurd (hnot.symm.trans halias) Bool.false_ne_true, rfl⟩
  · rename_i halias
    rw [if_neg halias] at h
    dsimp only at h ⊢
    split
    · rename_i hmerge
      rw [if_pos hmerge] at h
      split
      · rename_i hfits
        rw [if_pos hfits] at h
        rw [← h] at hchanged
        cases hchanged
      · rename_i hover
        rw [if_neg hover] at h
        split
        · rename_i hroom
          rw [if_pos hroom] at h
          rw [← h] at hchanged
          cases hchanged
        · rename_i hfull
          exact ⟨fun _ _ _ => by omega, rfl⟩
    · rename_i hmerge
      refine ⟨fun _ hnonempty hsame => absurd ?_ hmerge, rfl⟩
      simp [hnonempty, hsame]

theorem mergePass_moved {order : List Nat} (hlimits : menu.SameLimits slots) (hsub : ∀ j ∈ order, j ∈ slots) (hsized : 0 < e.stack.maxStackSize) :
    menu.Moved source slots e (visitAll (menu.mergeVisit source) order e) := by
  refine visitAll_induct (R := menu.Moved source slots e) (fun j hj s hs => hs.trans ?_) (Moved.refl menu source slots e)
  refine mergeVisit_moved hlimits ?_ (hsub j hj)
  rw [hs.stack]
  exact hsized

omit [BEq α] in
theorem Moved.changed (h : menu.Moved source slots e e') (hchanged : e.changed = true) : e'.changed = true := by
  rcases h.progress with rfl | ⟨hchanged', -⟩
  · exact hchanged
  · exact hchanged'

omit [BEq α] in
theorem Moved.eq_of_unchanged (h : menu.Moved source slots e e') (hchanged : e'.changed = false) : e' = e := by
  rcases h.progress with heq | ⟨hchanged', -⟩
  · exact heq
  · rw [hchanged] at hchanged'
    cases hchanged'

/-- A first pass that changes nothing has met no slot with room for the stack. -/
theorem mergePass_unchanged {order : List Nat} (hlimits : menu.SameLimits slots) (hsub : ∀ j ∈ order, j ∈ slots) (hsized : 0 < e.stack.maxStackSize)
    (hstack : e.stack.isEmpty = false) (hchanged : e.changed = false)
    (h : (visitAll (menu.mergeVisit source) order e).changed = false) :
    ∀ j ∈ order, menu.Unmerged source e.stack e.contents j := by
  induction order with
  | nil => exact fun j hj => absurd hj List.not_mem_nil
  | cons j rest ih =>
    rw [List.forall_mem_cons] at hsub ⊢
    have hvisit : menu.Moved source slots e (menu.mergeVisit source j e).1 := mergeVisit_moved hlimits hsized hsub.1
    have hsame : (menu.mergeVisit source j e).1 = e := by
      refine hvisit.eq_of_unchanged ?_
      by_contra hnot
      rw [Bool.not_eq_false] at hnot
      unfold visitAll at h
      split at h
      · have hsized' : 0 < (menu.mergeVisit source j e).1.stack.maxStackSize := by
          rw [hvisit.stack]
          exact hsized
        have hrest : menu.Moved source slots _ (visitAll (menu.mergeVisit source) rest (menu.mergeVisit source j e).1) :=
          mergePass_moved hlimits hsub.2 hsized'
        rw [hrest.changed hnot] at h
        cases h
      · rw [hnot] at h
        cases h
    obtain ⟨hunmerged, hgoOn⟩ := unmerged_of_unchanged hstack hsame hchanged
    refine ⟨hunmerged, ih hsub.2 ?_⟩
    rw [visitAll, if_pos hgoOn, hsame] at h
    exact h

/-! ## Into an empty slot -/

/-- A slot that gets nothing from the second pass. -/
def Unplaced (menu : QuickMenu P α) (source : Nat) (stack : ItemStack α) (contents : MenuContents P α) (j : Nat) : Prop :=
  menu.aliases source j = false → (contents (menu.slots j).position).isEmpty = true → (menu.slots j).mayPlace stack = false

omit [BEq α] in
theorem placeVisit_moved (hlimits : menu.SameLimits slots) (hsized : 0 < e.stack.maxStackSize) (hstack : e.stack.isEmpty = false) (hj : j ∈ slots) :
    menu.placeVisit source j e = (e, true) ∧ menu.Unplaced source e.stack e.contents j ∨
      (menu.placeVisit source j e).2 = false ∧ (menu.placeVisit source j e).1.changed = true ∧
        menu.Moved source slots e (menu.placeVisit source j e).1 := by
  unfold placeVisit
  split
  · rename_i halias
    exact Or.inl ⟨rfl, fun hnot => absurd (hnot.symm.trans halias) Bool.false_ne_true⟩
  · rename_i halias
    dsimp only
    split
    · rename_i hplace
      rw [Bool.and_eq_true] at hplace
      have hcount := (ItemStack.not_isEmpty_iff.mp hstack).2
      have hlimit : 0 < (menu.slots j).getMaxStackSizeForItem e.stack := lt_min (menu.slots j).maxStackSize_pos hsized
      have hplaced : 0 < min (min e.stack.count ((menu.slots j).getMaxStackSizeForItem e.stack)) e.stack.count := by omega
      refine Or.inr ⟨rfl, rfl, ?_⟩
      unfold ItemStack.split ItemStack.shrink
      refine moved_update hlimits hj (by simpa using halias) ?_ ?_ hsized ?_ ?_
      · rw [ItemStack.size_of_isEmpty hplace.1, ItemStack.size_setCount hstack hplaced.le]
        exact hplaced
      · rw [ItemStack.size_setCount hstack hplaced.le]
        exact (min_le_left ..).trans (min_le_right ..)
      · omega
      · omega
    · rename_i hplace
      refine Or.inl ⟨rfl, fun _ hempty => ?_⟩
      simpa [hempty] using hplace

omit [BEq α] in
theorem placePass_moved (menu : QuickMenu P α) (source : Nat) {order : List Nat} (hlimits : menu.SameLimits slots) (hsub : ∀ j ∈ order, j ∈ slots) (hsized : 0 < e.stack.maxStackSize)
    (hstack : e.stack.isEmpty = false) :
    menu.Moved source slots e (visitAll (menu.placeVisit source) order e) ∧
      ((visitAll (menu.placeVisit source) order e).changed = true ∨ ∀ j ∈ order, menu.Unplaced source e.stack e.contents j) := by
  induction order with
  | nil => exact ⟨Moved.refl menu source slots e, Or.inr fun j hj => absurd hj List.not_mem_nil⟩
  | cons j rest ih =>
    rw [List.forall_mem_cons] at hsub
    unfold visitAll
    have hvisit : menu.placeVisit source j e = (e, true) ∧ menu.Unplaced source e.stack e.contents j ∨
        (menu.placeVisit source j e).2 = false ∧ (menu.placeVisit source j e).1.changed = true ∧
          menu.Moved source slots e (menu.placeVisit source j e).1 := placeVisit_moved hlimits hsized hstack hsub.1
    rcases hvisit with ⟨hvisit, hunplaced⟩ | ⟨hstop, hchanged, hmoved⟩
    · rw [hvisit, if_pos rfl]
      refine ⟨(ih hsub.2).1, (ih hsub.2).2.imp id fun hrest => ?_⟩
      exact List.forall_mem_cons.mpr ⟨hunplaced, hrest⟩
    · rw [hstop, if_neg Bool.false_ne_true]
      exact ⟨hmoved, Or.inl hchanged⟩

/-! ## Into the ranges of a route -/

/-- A slot that neither pass gives anything to. -/
structure Exhausted (menu : QuickMenu P α) (source : Nat) (stack : ItemStack α) (contents : MenuContents P α) (j : Nat) : Prop where
  unmerged : stack.isStackable = true → menu.Unmerged source stack contents j
  unplaced : menu.Unplaced source stack contents j

theorem moveItemStackTo_moved (menu : QuickMenu P α) (source : Nat) {target : SlotRange} (direction : FillDirection)
    (hlimits : menu.SameLimits slots) (hsub : ∀ j, target.start ≤ j → j < target.stop → j ∈ slots)
    (hsized : 0 < e.stack.maxStackSize) (hstack : e.stack.isEmpty = false) (hchanged : e.changed = false) :
    menu.Moved source slots e (menu.moveItemStackTo source target direction e) ∧
      ((menu.moveItemStackTo source target direction e).changed = true ∨
        ∀ j, target.start ≤ j → j < target.stop → menu.Exhausted source e.stack e.contents j) := by
  have hsame : ({ e with changed := false } : MoveState P α) = e := by rw [← hchanged]
  unfold moveItemStackTo
  rw [hsame]
  split
  · exact ⟨Moved.refl menu source slots e, Or.inr fun j hj hj' => by omega⟩
  · rename_i hrange
    dsimp only
    have hpass : ∀ (visit : Nat → MoveState P α → MoveState P α × Bool) (e : MoveState P α),
        walk (decide (direction = .backward)) target.start target.stop visit (target.stop - target.start)
          (if decide (direction = .backward) = true then target.stop - 1 else target.start) e =
        visitAll visit (walkOrder (decide (direction = .backward)) target.start target.stop) e :=
      fun visit e => walk_eq _ (by omega) e
    have hsub' : ∀ j ∈ walkOrder (decide (direction = .backward)) target.start target.stop, j ∈ slots := fun j hj =>
      hsub j (mem_walkOrder.mp hj).1 (mem_walkOrder.mp hj).2
    simp only [hpass]
    generalize hmerged : (if e.stack.isStackable then visitAll (menu.mergeVisit source)
      (walkOrder (decide (direction = .backward)) target.start target.stop) e else e) = merged
    have hmerge : menu.Moved source slots e merged := by
      rw [← hmerged]
      split
      · exact mergePass_moved hlimits hsub' hsized
      · exact Moved.refl menu source slots e
    split
    · -- The first pass took the whole stack.
      rename_i hempty
      refine ⟨hmerge, Or.inl ?_⟩
      rcases hmerge.progress with rfl | ⟨hchanged', -⟩
      · rw [hempty] at hstack
        cases hstack
      · exact hchanged'
    · rename_i hleft
      have hsized' : 0 < merged.stack.maxStackSize := by
        rw [hmerge.stack]
        exact hsized
      have hplace := menu.placePass_moved source hlimits hsub' hsized' (by simpa using hleft)
      refine ⟨hmerge.trans hplace.1, ?_⟩
      rcases hplace.2 with hplaced | hunplaced
      · exact Or.inl hplaced
      · rcases hmerge.progress with rfl | ⟨hchanged', -⟩
        · refine Or.inr fun j hj hj' => ⟨fun hstackable => ?_, hunplaced j (mem_walkOrder.mpr ⟨hj, hj'⟩)⟩
          rw [if_pos hstackable] at hmerged
          exact mergePass_unchanged hlimits hsub' hsized hstack hchanged (by rw [hmerged, hchanged]) j (mem_walkOrder.mpr ⟨hj, hj'⟩)
        · exact Or.inl (hplace.1.changed hchanged')

theorem moveToTargets_moved (menu : QuickMenu P α) (source : Nat) {targets : List SlotRange} (direction : FillDirection) (hlimits : menu.SameLimits slots)
    (hsub : ∀ target ∈ targets, ∀ j, target.start ≤ j → j < target.stop → j ∈ slots)
    (hsized : 0 < e.stack.maxStackSize) (hstack : e.stack.isEmpty = false) (hchanged : e.changed = false) :
    menu.Moved source slots e (menu.moveToTargets source direction targets e) ∧
      ((menu.moveToTargets source direction targets e).changed = true ∨ menu.moveToTargets source direction targets e = e ∧
        ∀ target ∈ targets, ∀ j, target.start ≤ j → j < target.stop → menu.Exhausted source e.stack e.contents j) := by
  induction targets with
  | nil =>
    have hsame : menu.moveToTargets source direction [] e = e := by rw [moveToTargets, ← hchanged]
    rw [hsame]
    exact ⟨Moved.refl menu source slots e, Or.inr ⟨rfl, fun target htarget => absurd htarget List.not_mem_nil⟩⟩
  | cons target rest ih =>
    rw [List.forall_mem_cons] at hsub
    obtain ⟨hmoved, hdone⟩ := menu.moveItemStackTo_moved source direction hlimits hsub.1 hsized hstack hchanged
    unfold moveToTargets
    dsimp only
    split
    · rename_i htook
      exact ⟨hmoved, Or.inl htook⟩
    · rename_i htook
      have hsame := hmoved.eq_of_unchanged (by simpa using htook)
      rw [hsame]
      refine ⟨(ih hsub.2).1, (ih hsub.2).2.imp id fun hrest => ⟨hrest.1, List.forall_mem_cons.mpr ⟨?_, hrest.2⟩⟩⟩
      exact hdone.resolve_left htook

end QuickMenu

end Foton

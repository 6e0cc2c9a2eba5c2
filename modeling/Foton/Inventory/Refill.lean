import Foton.Inventory.Player
import Mathlib.Data.List.Perm.Basic

/-!
# Adding a stack to an inventory with a free slot

A free main slot is filled exactly when the room for merging and that of the
empty main slots before it do not take the whole stack. What is put there is
then more than what could still merge elsewhere.
-/

namespace Foton

namespace PlayerInventory

variable {α : Type} [BEq α] {inv : PlayerInventory α} {stack : ItemStack α} {before after : List (Fin 43)} {i : Fin 43}

def clearSlot (inv : PlayerInventory α) (i : Fin 43) : PlayerInventory α :=
  { inv with items := Function.update inv.items i .empty }

omit [BEq α] in
theorem empty_isEmpty : (ItemStack.empty : ItemStack α).isEmpty = true := by
  simp [ItemStack.empty, ItemStack.isEmpty]

omit [BEq α] in
theorem clearSlot_self (inv : PlayerInventory α) (i : Fin 43) : ((inv.clearSlot i).items i).isEmpty = true := by
  have hitem : (inv.clearSlot i).items i = .empty := Function.update_self ..
  rw [hitem, empty_isEmpty]

omit [BEq α] in
theorem clearSlot_other (inv : PlayerInventory α) {j : Fin 43} (h : j ≠ i) : (inv.clearSlot i).items j = inv.items j :=
  Function.update_of_ne h ..

theorem size_pos_of_fits (hstack : stack.isEmpty = false) (hfits : stack.count.toNat ≤ inv.mergeable stack + inv.placeable stack mainSlots) :
    0 < getMaxStackSizeForItem stack := by
  by_contra hsize
  have hcount := (ItemStack.not_isEmpty_iff.mp hstack).2
  have hstackable : stack.isStackable = false := by
    have hmax : ¬ 1 < stack.maxStackSize := by
      unfold getMaxStackSizeForItem at hsize
      omega
    simp [ItemStack.isStackable, hmax]
  have hmerge : inv.mergeable stack = 0 := by
    simp [mergeable, mergePlaces, hstackable, roomOf]
  have hplace : inv.placeable stack mainSlots = 0 := by
    refine roomOf_zero fun j _ => ?_
    unfold placeRoom
    split
    · omega
    · rfl
  omega

theorem add_units_of_fits (kind : ItemKind α) (hstack : stack.isEmpty = false)
    (hfits : stack.count.toNat ≤ inv.mergeable stack + inv.placeable stack mainSlots) :
    (inv.add stack).1.units kind = inv.units kind + kind.units stack := by
  have hsize := size_pos_of_fits hstack hfits
  have hrest : (inv.placed stack).2 = 0 := by
    rw [placed_rest]
    omega
  have hunits : (inv.add stack).1.units kind + kind.units (inv.add stack).2 = inv.units kind + kind.units stack :=
    add_units kind hstack hsize
  have hnone : kind.units (inv.add stack).2 = 0 := by
    rw [add_eq hstack hsize, hrest]
    exact kind.units_of_isEmpty ((ItemStack.isEmpty_setCount hstack).mpr (Int.le_refl 0))
  omega

theorem add_units_le (hstack : stack.isEmpty = false) : (inv.add stack).1.units .all ≤ inv.units .all + ItemKind.all.units stack := by
  have hnonneg : ∀ s : ItemStack α, 0 ≤ ItemKind.all.units s := ItemStack.size_nonneg
  rcases Int.lt_or_le 0 (getMaxStackSizeForItem stack) with hsize | hsize
  · have hunits : (inv.add stack).1.units .all + ItemKind.all.units (inv.add stack).2 = inv.units .all + ItemKind.all.units stack :=
      add_units .all hstack hsize
    have := hnonneg (inv.add stack).2
    omega
  · have hnone : (inv.add stack).1.units .all = inv.units .all := add_units_none .all hstack hsize
    have := hnonneg stack
    omega

theorem add_units_lt (hstack : stack.isEmpty = false)
    (hfits : ¬ stack.count.toNat ≤ inv.mergeable stack + inv.placeable stack mainSlots) :
    (inv.add stack).1.units .all < inv.units .all + ItemKind.all.units stack := by
  have hpos : 0 < ItemKind.all.units stack := by
    have := (ItemStack.not_isEmpty_iff.mp hstack).2
    have hsize := ItemStack.size_of_not_isEmpty hstack
    show 0 < stack.size
    omega
  rcases Int.lt_or_le 0 (getMaxStackSizeForItem stack) with hsize | hsize
  · have hunits : (inv.add stack).1.units .all + ItemKind.all.units (inv.add stack).2 = inv.units .all + ItemKind.all.units stack :=
      add_units .all hstack hsize
    have hrest : 0 < ItemKind.all.units (inv.add stack).2 := by
      rw [add_eq hstack hsize, units_setCount _ hstack, placed_rest]
      show 0 < (1 : Int) * _
      omega
    omega
  · have hnone : (inv.add stack).1.units .all = inv.units .all := add_units_none .all hstack hsize
    omega

theorem add_leaves_free (hslots : mainSlots = before ++ i :: after) (hempty : (inv.items i).isEmpty = true)
    (hstack : stack.isEmpty = false) (hsize : 0 < getMaxStackSizeForItem stack)
    (hle : stack.count.toNat ≤ inv.mergeable stack + inv.placeable stack before) : ((inv.add stack).1.items i).isEmpty = true := by
  rw [add_eq hstack hsize]
  dsimp only
  rw [placed_at hslots hempty, Nat.sub_eq_zero_of_le hle, Nat.zero_min, fillSlot_zero, merged_isEmpty, hempty]

theorem add_leaves_other (hi : i ∉ mainSlots) (hempty : (inv.items i).isEmpty = true) (hstack : stack.isEmpty = false)
    (hsize : 0 < getMaxStackSizeForItem stack) : ((inv.add stack).1.items i).isEmpty = true := by
  rw [add_eq hstack hsize]
  dsimp only
  unfold placed
  rw [pour_other hi, merged_isEmpty, hempty]

omit [BEq α] in
theorem mergeSlots_perm (inv : PlayerInventory α) : inv.mergeSlots.Perm (slotOffhand :: mainSlots) := by
  have hall : ∀ selected : Fin 9, (Fin.castLE (by decide) selected :: slotOffhand ::
      mainSlots.filter fun slot => !decide (slot = (Fin.castLE (by decide) selected : Fin 43))).Perm
        (slotOffhand :: mainSlots) := by decide
  exact hall inv.selected

theorem mergeRoom_le (stack : ItemStack α) (maxSize : Int) (c : ItemStack α) : mergeRoom stack maxSize c ≤ (maxSize - c.size).toNat := by
  unfold mergeRoom
  split
  · exact Nat.le_refl _
  · exact Nat.zero_le _

theorem mergeRoom_of_isEmpty {c : ItemStack α} (hc : c.isEmpty = true) (maxSize : Int) : mergeRoom stack maxSize c = 0 := by
  simp [mergeRoom, hc]

theorem mergeRoom_setCount_le (hstack : stack.isEmpty = false) (maxSize : Int) (amount : Nat) :
    mergeRoom stack maxSize (stack.setCount amount) ≤ (maxSize - amount).toNat := by
  have := mergeRoom_le stack maxSize (stack.setCount amount)
  rwa [ItemStack.size_setCount hstack (by omega)] at this

/-- Where the stack is more than what can merge, every stack it merges into is full. -/
theorem mergeRoom_merged (hstackable : stack.isStackable = true)
    (hlt : inv.mergeable stack ≤ stack.count.toNat) {j : Fin 43} (hj : j ∈ slotOffhand :: mainSlots) :
    mergeRoom stack (getMaxStackSizeForItem stack) ((inv.merged stack).1 j) = 0 := by
  have hplaces : inv.mergePlaces stack = inv.mergeSlots := if_pos hstackable
  have hmem : j ∈ inv.mergePlaces stack := by
    rw [hplaces]
    exact (mergeSlots_perm inv).mem_iff.mpr hj
  have hfull : (inv.merged stack).1 j = fillSlot stack (inv.items j) (mergeRoom stack (getMaxStackSizeForItem stack) (inv.items j)) :=
    pour_full (mergePlaces_nodup inv stack) hmem hlt
  rw [hfull]
  rcases fillSlot_merge (Nat.le_refl (mergeRoom stack (getMaxStackSizeForItem stack) (inv.items j))) with hzero | ⟨hc, hsame, hfill⟩
  · rw [hzero, fillSlot_zero, hzero]
  · have hcount := (ItemStack.not_isEmpty_iff.mp hc).2
    have hgrown : ((inv.items j).grow (mergeRoom stack (getMaxStackSizeForItem stack) (inv.items j))).size =
        (inv.items j).count + mergeRoom stack (getMaxStackSizeForItem stack) (inv.items j) := by
      rw [ItemStack.grow, ItemStack.size_setCount hc (by omega)]
    have hroom : mergeRoom stack (getMaxStackSizeForItem stack) (inv.items j) =
        (getMaxStackSizeForItem stack - (inv.items j).count).toNat := by
      rw [mergeRoom, hc, hsame, ItemStack.size_of_not_isEmpty hc]
      rfl
    have hle := mergeRoom_le stack (getMaxStackSizeForItem stack)
      ((inv.items j).grow (mergeRoom stack (getMaxStackSizeForItem stack) (inv.items j)))
    rw [hgrown, hroom] at hle
    rw [hfill, hroom]
    omega

/-- **A free slot is filled** by the part of the stack that neither merges nor fits before it. -/
theorem add_refills (hslots : mainSlots = before ++ i :: after) (hempty : (inv.items i).isEmpty = true) (hstack : stack.isEmpty = false)
    (hsize : 0 < getMaxStackSizeForItem stack) (hlt : inv.mergeable stack + inv.placeable stack before < stack.count.toNat) :
    ∃ n : Nat, 0 < n ∧ n ≤ (getMaxStackSizeForItem stack).toNat ∧ (inv.add stack).1.items i = stack.setCount n ∧
      (∀ j ∈ before, ((inv.add stack).1.items j).isEmpty = false) ∧ ((inv.add stack).1.clearSlot i).mergeable stack < n := by
  have hnodup := mainSlots_nodup
  have hoffhand : slotOffhand ∉ mainSlots := by decide
  rw [hslots] at hnodup hoffhand
  obtain ⟨hbefore, hafter, hdisjoint⟩ := List.nodup_append.mp hnodup
  obtain ⟨hi, hafter⟩ := List.nodup_cons.mp hafter
  have hiBefore : i ∉ before := fun h => hdisjoint i h i List.mem_cons_self rfl
  have hother : ∀ j ∈ before, j ∉ after := fun j hj h => hdisjoint j hj j (List.mem_cons_of_mem i h) rfl
  have hmerged : ((inv.merged stack).1 i).isEmpty = true := by rw [merged_isEmpty, hempty]
  -- What reaches the slot, and what it takes of that.
  obtain ⟨reached, hreached⟩ : ∃ reached, reached = (pour (placeRoom (getMaxStackSizeForItem stack)) (fillSlot stack) before
    (inv.merged stack).1 (inv.merged stack).2) := ⟨_, rfl⟩
  have hroom : roomOf (placeRoom (getMaxStackSizeForItem stack)) before (inv.merged stack).1 = inv.placeable stack before :=
    roomOf_congr fun j _ => placeRoom_merged j
  have hleft : reached.2 = stack.count.toNat - (inv.mergeable stack + inv.placeable stack before) := by
    rw [hreached, pour_rest hbefore, hroom, merged_rest, Nat.sub_sub]
  have hat : reached.1 i = (inv.merged stack).1 i := by
    rw [hreached, pour_other hiBefore]
  obtain ⟨n, hn⟩ : ∃ n, n = min reached.2 (getMaxStackSizeForItem stack).toNat := ⟨_, rfl⟩
  have hpos : 0 < n := by omega
  have hplaced : inv.placed stack = pour (placeRoom (getMaxStackSizeForItem stack)) (fillSlot stack) after
      (Function.update reached.1 i (stack.setCount n)) (reached.2 - n) := by
    have htake : placeRoom (getMaxStackSizeForItem stack) (reached.1 i) = (getMaxStackSizeForItem stack).toNat := by
      rw [hat, placeRoom, if_pos hmerged]
    unfold placed
    rw [hslots, pour_append, ← hreached, pour_cons, htake, ← hn, fillSlot, if_neg hpos.ne', hat, if_pos hmerged]
  -- The slots before it are full.
  have hfull : ∀ j ∈ before, (inv.placed stack).1 j = fillSlot stack ((inv.merged stack).1 j)
      (placeRoom (getMaxStackSizeForItem stack) ((inv.merged stack).1 j)) := by
    intro j hj
    have hne : j ≠ i := ne_of_mem_of_not_mem hj hiBefore
    rw [hplaced, pour_other (hother j hj), Function.update_of_ne hne, hreached]
    refine pour_full hbefore hj ?_
    rw [hroom, merged_rest]
    omega
  rw [add_eq hstack hsize]
  refine ⟨n, hpos, by omega, ?_, fun j hj => ?_, ?_⟩
  · dsimp only
    rw [hplaced, pour_other hi, Function.update_self]
  · dsimp only
    rw [hfull j hj, placeRoom]
    split
    · rename_i hempty
      rw [fillSlot, if_neg (by omega), if_pos hempty, ItemStack.not_isEmpty_setCount hstack (by omega)]
    · rename_i hnonempty
      rw [fillSlot_zero]
      simpa using hnonempty
  · by_cases hstackable : stack.isStackable = true
    · have hzero : ∀ j ∈ slotOffhand :: mainSlots, mergeRoom stack (getMaxStackSizeForItem stack) ((inv.merged stack).1 j) = 0 :=
        fun j hj => mergeRoom_merged hstackable (by omega) hj
      rw [hslots] at hzero
      have hall : ∀ items : Fin 43 → ItemStack α, (mergeable { inv with items := items } stack) =
          roomOf (mergeRoom stack (getMaxStackSizeForItem stack)) (slotOffhand :: (before ++ i :: after)) items := by
        intro items
        rw [mergeable, mergePlaces, if_pos hstackable, roomOf_perm (mergeSlots_perm _), hslots]
      have hfilled : ∀ j ∈ before, mergeRoom stack (getMaxStackSizeForItem stack) ((inv.placed stack).1 j) = 0 := by
        intro j hj
        rw [hfull j hj, placeRoom]
        split
        · rename_i hempty
          have := mergeRoom_setCount_le hstack (getMaxStackSizeForItem stack) (getMaxStackSizeForItem stack).toNat
          rw [fillSlot, if_neg (by omega), if_pos hempty]
          omega
        · rw [fillSlot_zero]
          exact hzero j (List.mem_cons_of_mem _ (List.mem_append_left _ hj))
      have hbehind : roomOf (mergeRoom stack (getMaxStackSizeForItem stack)) after (inv.placed stack).1 < n := by
        have hsame : ∀ j ∈ after, Function.update reached.1 i (stack.setCount n) j = (inv.merged stack).1 j := by
          intro j hj
          rw [Function.update_of_ne (ne_of_mem_of_not_mem hj hi), hreached, pour_other fun h => hother j h hj]
        have hnone : ∀ j ∈ after, mergeRoom stack (getMaxStackSizeForItem stack)
            (Function.update reached.1 i (stack.setCount n) j) = 0 := by
          intro j hj
          rw [hsame j hj]
          exact hzero j (List.mem_cons_of_mem _ (List.mem_append_right _ (List.mem_cons_of_mem _ hj)))
        rw [hplaced]
        rcases Nat.lt_or_ge (getMaxStackSizeForItem stack).toNat reached.2 with hmore | hless
        · have hmax : n = (getMaxStackSizeForItem stack).toNat := by omega
          rw [hmax] at hnone ⊢
          refine pour_partial hafter (by omega) (fun j _ => ?_) hnone (fillSlot_zero stack) fun j hj amount hamount hle => ?_
          · unfold placeRoom
            split
            · exact Or.inl rfl
            · exact Or.inr rfl
          · unfold placeRoom at hle
            split at hle
            · rename_i hempty
              have := mergeRoom_setCount_le hstack (getMaxStackSizeForItem stack) amount
              rw [fillSlot, if_neg hamount.ne', if_pos hempty]
              omega
            · omega
        · have hend : reached.2 - n = 0 := by omega
          rw [hend, pour_zero (fillSlot_zero stack), roomOf_zero hnone]
          exact hpos
      have hoff : (inv.placed stack).1 slotOffhand = (inv.merged stack).1 slotOffhand := by
        unfold placed
        rw [hslots, pour_other hoffhand]
      have hne : slotOffhand ≠ i := fun heq => hoffhand (heq ▸ List.mem_append_right _ List.mem_cons_self)
      unfold clearSlot
      dsimp only
      rw [hall, roomOf_cons, roomOf_append, roomOf_cons, Function.update_of_ne hne, hoff, hzero _ List.mem_cons_self,
        Function.update_self, mergeRoom_of_isEmpty empty_isEmpty, roomOf_update hiBefore, roomOf_update hi, roomOf_zero hfilled]
      omega
    · have hnone : ∀ inv' : PlayerInventory α, inv'.mergeable stack = 0 := by
        intro inv'
        rw [mergeable, mergePlaces, if_neg hstackable]
        rfl
      rw [hnone]
      exact hpos

end PlayerInventory

end Foton

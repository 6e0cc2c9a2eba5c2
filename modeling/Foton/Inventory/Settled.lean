import Foton.Inventory.Throw

/-!
# When throwing a whole stack ends

A refused stack that comes back into its own slot is thrown again, for as long
as the world refuses. It settles when the stack fits into the inventory and its
slot stays free or the refusals end.
-/

namespace Foton

variable {α : Type} [BEq α]

open PlayerInventory ThrowState

variable {slot : ThrowSlot α} {world : DropWorld} {s s' : ThrowState α} {stack dropped : ItemStack α} {i : Fin 43}

/-- The main slots before a slot, in the order they are filled. -/
def slotsBefore (i : Fin 43) : List (Fin 43) := mainSlots.filter (· < i)

theorem mainSlots_split (hi : i ∈ mainSlots) : mainSlots = slotsBefore i ++ i :: mainSlots.filter (i < ·) := by
  have hall : ∀ i ∈ mainSlots, mainSlots = slotsBefore i ++ i :: mainSlots.filter (i < ·) := by decide
  exact hall i hi

theorem mergeable_setCount (hstack : stack.isEmpty = false) {n : Int} (hn : 0 < n) (inv : PlayerInventory α) :
    inv.mergeable (stack.setCount n) = inv.mergeable stack := by
  have hroom : mergeRoom (stack.setCount n) (getMaxStackSizeForItem (stack.setCount n)) =
      mergeRoom stack (getMaxStackSizeForItem stack) := by
    funext c
    unfold mergeRoom
    rw [ItemStack.isSame_setCount_right hstack hn]
    rfl
  unfold mergeable
  rw [hroom]
  rfl

omit [BEq α] in
theorem emptied_eq (h : slot.backing = some i) : s.emptied slot = { s with inventory := s.inventory.clearSlot i } := by
  unfold emptied ThrowSlot.setItem
  rw [h]
  rfl

omit [BEq α] in
theorem emptied_drops : (s.emptied slot).drops = s.drops := by
  unfold emptied ThrowSlot.setItem
  cases slot.backing <;> rfl

/-- A drop that the world takes leaves the slot free and every item where it can be found. -/
theorem accepted_free (hitem : (slot.getItem s).isEmpty = false) (haccepted : world.answer s.drops = .accepted) :
    (slot.getItem ((s.emptied slot).dropItem world (slot.getItem s))).isEmpty = true ∧
      ∀ kind, ((s.emptied slot).dropItem world (slot.getItem s)).units kind = s.units kind := by
  have hfree : (slot.getItem (s.emptied slot)).isEmpty = true := getItem_emptied
  rw [dropItem_accepted hitem (by rw [emptied_drops, haccepted])]
  exact ⟨hfree, fun kind => (units_accepted kind).trans (units_emptied kind)⟩

omit [BEq α] in
theorem getItem_eq (h : slot.backing = some i) : slot.getItem s = s.inventory.items i := by
  unfold ThrowSlot.getItem
  rw [h]

/-! ## A stack that comes back -/

/-- The slot holds a part of the stack that could neither merge nor be put before it. -/
structure Circulates (slot : ThrowSlot α) (stack : ItemStack α) (i : Fin 43) (s : ThrowState α) : Prop where
  backing : slot.backing = some i
  main : i ∈ mainSlots
  item : ∃ n : Nat, 0 < n ∧ n ≤ (getMaxStackSizeForItem stack).toNat ∧ s.inventory.items i = stack.setCount n ∧
    (s.inventory.clearSlot i).mergeable stack < n
  before : ∀ j ∈ slotsBefore i, (s.inventory.items j).isEmpty = false

namespace Circulates

variable (hc : Circulates slot stack i s) (hstack : stack.isEmpty = false)

include hc hstack

theorem getItem_isEmpty : (slot.getItem s).isEmpty = false := by
  obtain ⟨n, hn, -, hitem, -⟩ := hc.item
  rw [getItem_eq hc.backing, hitem, ItemStack.not_isEmpty_setCount hstack (by exact_mod_cast hn)]

theorem refused (hrefused : world.answer s.drops ≠ .accepted) :
    Circulates slot stack i ((s.emptied slot).dropItem world (slot.getItem s)) ∧
      ((s.emptied slot).dropItem world (slot.getItem s)).drops = s.drops + 1 ∧
      ∀ kind, ((s.emptied slot).dropItem world (slot.getItem s)).units kind = s.units kind := by
  have hnonempty := hc.getItem_isEmpty hstack
  have hunits : ∀ kind, (s.emptied slot).units kind + kind.units (slot.getItem s) = s.units kind := fun kind => units_emptied kind
  have hrefused' : world.answer (s.emptied slot).drops ≠ .accepted := by
    rw [emptied_eq hc.backing]
    exact hrefused
  obtain ⟨n, hn, hmax, hitem, hroom⟩ := hc.item
  have hn' : (0 : Int) < n := by exact_mod_cast hn
  rw [dropItem_refused hnonempty hrefused']
  have hget : slot.getItem s = stack.setCount n := (getItem_eq hc.backing).trans hitem
  have hcleared : (s.emptied slot).inventory = s.inventory.clearSlot i := by rw [emptied_eq hc.backing]
  rw [hcleared]
  rw [hget] at hnonempty hunits ⊢
  have hsize : 0 < getMaxStackSizeForItem (stack.setCount n) := by
    have hsame : getMaxStackSizeForItem (stack.setCount n) = getMaxStackSizeForItem stack := rfl
    omega
  have hfree := clearSlot_self s.inventory i
  have hbefore : (s.inventory.clearSlot i).placeable (stack.setCount n) (slotsBefore i) = 0 := by
    refine roomOf_zero fun j hj => ?_
    have hne : j ≠ i := (of_decide_eq_true (List.mem_filter.mp hj).2).ne
    unfold placeRoom
    rw [clearSlot_other s.inventory hne, hc.before j hj]
    rfl
  have hmerge := mergeable_setCount hstack hn' (s.inventory.clearSlot i)
  have hcount : (stack.setCount (n : Int)).count.toNat = n := Int.toNat_natCast n
  obtain ⟨n', hpos, hle, hback, hothers, hroom'⟩ := add_refills (mainSlots_split hc.main) hfree hnonempty hsize (by omega)
  have hfits : (stack.setCount (n : Int)).count.toNat ≤ (s.inventory.clearSlot i).mergeable (stack.setCount n) +
      (s.inventory.clearSlot i).placeable (stack.setCount n) mainSlots := by
    have hplace : placeRoom (getMaxStackSizeForItem (stack.setCount n)) ((s.inventory.clearSlot i).items i) =
        (getMaxStackSizeForItem stack).toNat := by
      rw [placeRoom, if_pos hfree]
      rfl
    rw [placeable, mainSlots_split hc.main, roomOf_append, roomOf_cons, hplace]
    omega
  refine ⟨⟨hc.backing, hc.main, ⟨n', hpos, hle, hback, ?_⟩, hothers⟩, ?_, fun kind => ?_⟩
  · rw [← mergeable_setCount hstack hn']
    exact hroom'
  · rw [emptied_eq hc.backing]
  · have hadd := add_units_of_fits kind hnonempty hfits
    have := hunits kind
    rw [← hcleared] at hadd ⊢
    rw [units_restored, hadd]
    omega

variable (hpickup : slot.mayPickup stack = true) (hsame : ItemStack.isSameItem stack dropped = true)

include hpickup hsame

theorem turn (hdrop : world.canDropItems s.drops = true) (fuel : Nat) :
    throwAgain slot world dropped (fuel + 1) s =
      throwAgain slot world dropped fuel ((s.emptied slot).dropItem world (slot.getItem s)) := by
  obtain ⟨n, hn, -, hitem, -⟩ := hc.item
  have hn' : (0 : Int) < n := by exact_mod_cast hn
  have hget : slot.getItem s = stack.setCount n := (getItem_eq hc.backing).trans hitem
  refine throwAgain_turn ?_ hdrop (hc.getItem_isEmpty hstack) ?_ fuel
  · rw [hget, slot.mayPickup_setCount stack n hstack hn', hpickup]
  · unfold ItemStack.isSameItem at hsame ⊢
    rw [hget, ItemStack.itemKey_setCount hstack hn', hsame]

theorem ends {m : Nat} (hm : s.drops ≤ m) (hend : world.canDropItems m = false ∨ world.answer m = .accepted) :
    ∃ fuel s', throwAgain slot world dropped fuel s = some s' ∧ ∀ kind, s'.units kind = s.units kind := by
  induction hd : m - s.drops using Nat.strong_induction_on generalizing s with
  | _ d ih =>
    by_cases hdrop : world.canDropItems s.drops = true
    · by_cases haccepted : world.answer s.drops = .accepted
      · obtain ⟨hfree, hunits⟩ := accepted_free (hc.getItem_isEmpty hstack) haccepted
        exact ⟨2, _, (hc.turn hstack hpickup hsame hdrop 1).trans (throwAgain_empty hfree 0), hunits⟩
      · have hlt : s.drops < m := by
          rcases Nat.lt_or_ge s.drops m with h | h
          · exact h
          · rw [Nat.le_antisymm h hm] at hend
            exact absurd hend (not_or.mpr ⟨by simp [hdrop], haccepted⟩)
        obtain ⟨hnext, hdrops, hunits⟩ := hc.refused hstack haccepted
        obtain ⟨fuel, s', hrun, hsettled⟩ := ih (m - (s.drops + 1)) (by omega) hnext (by omega) (by rw [hdrops])
        exact ⟨fuel + 1, s', (hc.turn hstack hpickup hsame hdrop fuel).trans hrun, fun kind => (hsettled kind).trans (hunits kind)⟩
    · refine ⟨1, s, ?_, fun kind => rfl⟩
      unfold throwAgain
      simp [hdrop]

theorem goes_on (hrefused : ∀ m, s.drops ≤ m → world.canDropItems m = true ∧ world.answer m ≠ .accepted) (fuel : Nat) :
    throwAgain slot world dropped fuel s = none := by
  induction fuel generalizing s with
  | zero => rfl
  | succ fuel ih =>
    obtain ⟨hdrop, hanswer⟩ := hrefused s.drops (Nat.le_refl _)
    obtain ⟨hnext, hdrops, -⟩ := hc.refused hstack hanswer
    rw [hc.turn hstack hpickup hsame hdrop]
    exact ih hnext fun m hm => hrefused m (by omega)

end Circulates

/-! ## Whole stacks -/

section Whole

variable (slot : ThrowSlot α) (world : DropWorld) (carried : ItemStack α) (s : ThrowState α)

/-- The throw is allowed and finds something in the slot. -/
structure Throws : Prop where
  carried : carried.isEmpty = true
  pickup : slot.mayPickup (slot.getItem s) = true
  drop : world.canDropItems s.drops = true
  item : (slot.getItem s).isEmpty = false

/-- The inventory without the stack has room for it. -/
def Fits : Prop :=
  (slot.getItem s).count.toNat ≤ (s.emptied slot).inventory.mergeable (slot.getItem s) +
    (s.emptied slot).inventory.placeable (slot.getItem s) mainSlots

/-- The slot is one that the stack reaches when it is added again. -/
def Returns : Prop :=
  ∃ i ∈ mainSlots, slot.backing = some i ∧ (s.emptied slot).inventory.mergeable (slot.getItem s) +
    (s.emptied slot).inventory.placeable (slot.getItem s) (slotsBefore i) < (slot.getItem s).count.toNat

/-- The throw ends, and every item is in the world or in the inventory. -/
def Settles : Prop :=
  ∃ fuel s', doThrow slot world carried true fuel s = some s' ∧ ∀ kind, s'.units kind = s.units kind

variable {slot world carried s}

theorem doThrow_of_throws (h : Throws slot world carried s) (fuel : Nat) : doThrow slot world carried true fuel s =
    throwAgain slot world (slot.getItem s) fuel ((s.emptied slot).dropItem world (slot.getItem s)) := by
  unfold doThrow
  rw [h.carried, h.pickup, h.drop]
  dsimp only
  simp only [Bool.not_true, Bool.false_eq_true, if_false, if_true]
  rw [safeTake_all h.pickup h.item]

theorem settles_of_not_throws (h : ¬ Throws slot world carried s) : Settles slot world carried s := by
  by_cases hallowed : carried.isEmpty = true ∧ slot.mayPickup (slot.getItem s) = true ∧ world.canDropItems s.drops = true
  · obtain ⟨hcarried, hpickup, hdrop⟩ := hallowed
    have hitem : (slot.getItem s).isEmpty = true := by
      by_contra hitem
      exact h ⟨hcarried, hpickup, hdrop, by simpa using hitem⟩
    have htake : slot.safeTake s (slot.getItem s).count = (.empty, s) := by
      unfold ThrowSlot.safeTake
      simp [hitem]
    have hnone : s.dropItem world .empty = s := by
      unfold dropItem
      rw [empty_isEmpty, if_pos rfl]
    refine ⟨1, s, ?_, fun kind => rfl⟩
    unfold doThrow
    rw [hcarried, hpickup, hdrop]
    simp only [Bool.not_true, Bool.false_eq_true, if_false, if_true, htake, hnone]
    exact throwAgain_empty hitem 0
  · refine ⟨0, s, ?_, fun kind => rfl⟩
    unfold doThrow
    split
    · rfl
    · split
      · rfl
      · split
        · rfl
        · refine absurd ⟨?_, ?_, ?_⟩ hallowed <;> simp_all

variable (h : Throws slot world carried s)

include h

theorem settles_of_accepted (haccepted : world.answer s.drops = .accepted) : Settles slot world carried s := by
  obtain ⟨hfree, hunits⟩ := accepted_free h.item haccepted
  exact ⟨1, _, (doThrow_of_throws h 1).trans (throwAgain_empty hfree 0), hunits⟩

theorem not_settles_of_not_fits (hrefused : world.answer s.drops ≠ .accepted) (hfits : ¬ Fits slot s) :
    ¬ Settles slot world carried s := by
  rintro ⟨fuel, s', hrun, hunits⟩
  rw [doThrow_of_throws h] at hrun
  have hle := throwAgain_units_le hrun
  have hlost := add_units_lt h.item hfits
  have hsame : (s.emptied slot).units .all + ItemKind.all.units (slot.getItem s) = s.units .all := units_emptied .all
  have hall := hunits .all
  rw [dropItem_refused h.item (by rw [emptied_drops]; exact hrefused), units_restored] at hle
  omega

variable (hrefused : world.answer s.drops ≠ .accepted) (hfits : Fits slot s)

include hrefused hfits

theorem units_refused (kind : ItemKind α) : ((s.emptied slot).dropItem world (slot.getItem s)).units kind = s.units kind := by
  have hadd := add_units_of_fits kind h.item hfits
  have hsame : (s.emptied slot).units kind + kind.units (slot.getItem s) = s.units kind := units_emptied kind
  rw [dropItem_refused h.item (by rw [emptied_drops]; exact hrefused), units_restored, hadd]
  omega

theorem settles_of_not_returns (hreturns : ¬ Returns slot s) : Settles slot world carried s := by
  have hsize := size_pos_of_fits h.item hfits
  have hempty : (slot.getItem ((s.emptied slot).dropItem world (slot.getItem s))).isEmpty = true := by
    rw [dropItem_refused h.item (by rw [emptied_drops]; exact hrefused)]
    cases hbacking : slot.backing with
    | none =>
      have hfree : (slot.getItem (s.emptied slot)).isEmpty = true := getItem_emptied
      unfold ThrowSlot.getItem at hfree ⊢
      rw [hbacking] at hfree ⊢
      exact hfree
    | some i =>
      have hfree : ((s.emptied slot).inventory.items i).isEmpty = true := by
        rw [emptied_eq hbacking]
        exact clearSlot_self s.inventory i
      rw [getItem_eq hbacking]
      by_cases hi : i ∈ mainSlots
      · refine add_leaves_free (mainSlots_split hi) hfree h.item hsize (Nat.not_lt.mp fun hlt => hreturns ⟨i, hi, hbacking, hlt⟩)
      · exact add_leaves_other hi hfree h.item hsize
  refine ⟨1, _, ?_, units_refused h hrefused hfits⟩
  rw [doThrow_of_throws h]
  exact throwAgain_empty hempty 0

theorem circulates_of_returns {i : Fin 43} (hi : i ∈ mainSlots) (hbacking : slot.backing = some i)
    (hlt : (s.emptied slot).inventory.mergeable (slot.getItem s) +
      (s.emptied slot).inventory.placeable (slot.getItem s) (slotsBefore i) < (slot.getItem s).count.toNat) :
    Circulates slot (slot.getItem s) i ((s.emptied slot).dropItem world (slot.getItem s)) := by
  have hfree : ((s.emptied slot).inventory.items i).isEmpty = true := by
    rw [emptied_eq hbacking]
    exact clearSlot_self s.inventory i
  obtain ⟨n, hpos, hle, hback, hbefore, hroom⟩ := add_refills (mainSlots_split hi) hfree h.item (size_pos_of_fits h.item hfits) hlt
  rw [dropItem_refused h.item (by rw [emptied_drops]; exact hrefused)]
  exact ⟨hbacking, hi, ⟨n, hpos, hle, hback, hroom⟩, hbefore⟩

theorem settles_iff_of_returns (hreturns : Returns slot s) : Settles slot world carried s ↔
    ∃ m > s.drops, world.canDropItems m = false ∨ world.answer m = .accepted := by
  obtain ⟨i, hi, hbacking, hlt⟩ := hreturns
  have hc := circulates_of_returns h hrefused hfits hi hbacking hlt
  have hsame : ItemStack.isSameItem (slot.getItem s) (slot.getItem s) = true := decide_eq_true rfl
  have hdrops : ((s.emptied slot).dropItem world (slot.getItem s)).drops = s.drops + 1 := by
    rw [dropItem_refused h.item (by rw [emptied_drops]; exact hrefused)]
    dsimp only
    rw [emptied_drops]
  constructor
  · rintro ⟨fuel, s', hrun, -⟩
    by_contra hnever
    rw [doThrow_of_throws h, hc.goes_on h.item h.pickup hsame fun m hm => ?_] at hrun
    · cases hrun
    · have hnot : ¬ (world.canDropItems m = false ∨ world.answer m = .accepted) := fun hend => hnever ⟨m, by omega, hend⟩
      rw [not_or] at hnot
      exact ⟨by simpa using hnot.1, hnot.2⟩
  · rintro ⟨m, hm, hend⟩
    obtain ⟨fuel, s', hrun, hunits⟩ := hc.ends h.item h.pickup hsame (by omega) hend
    exact ⟨fuel, s', (doThrow_of_throws h fuel).trans hrun, fun kind => (hunits kind).trans (units_refused h hrefused hfits kind)⟩

omit h hrefused hfits

end Whole

/-- Four stones in the first slot of the hotbar, and a world that takes nothing. -/
def stoneState : ThrowState Unit := ⟨⟨fun j => if j = slotHotbar then ItemStack.plainStone else .empty, 0⟩, .empty, [], 0⟩

def refusingWorld : DropWorld := ⟨fun _ => .refused, fun _ => true⟩

def hotbarSlot : ThrowSlot Unit := ⟨some slotHotbar, fun _ => true, fun _ _ _ _ => rfl⟩

end Foton

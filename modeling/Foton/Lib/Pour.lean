import Mathlib.Algebra.BigOperators.Fin
import Mathlib.Data.Fintype.BigOperators
import Mathlib.Tactic.Ring

/-!
# Filling places in order

An amount is poured into places with room, each taking what it can before the
next one is tried.
-/

namespace Foton

section Pour

variable {ι C : Type*} [DecidableEq ι] (room : C → Nat) (fill : C → Nat → C)

def pourInto (e : (ι → C) × Nat) (j : ι) : (ι → C) × Nat :=
  (Function.update e.1 j (fill (e.1 j) (min e.2 (room (e.1 j)))), e.2 - min e.2 (room (e.1 j)))

def pour (places : List ι) (items : ι → C) (amount : Nat) : (ι → C) × Nat :=
  places.foldl (pourInto room fill) (items, amount)

/-- The room of all the places together. -/
def roomOf (places : List ι) (items : ι → C) : Nat := (places.map fun j => room (items j)).sum

variable {room fill} {places : List ι} {items items' : ι → C} {amount : Nat} {j : ι}

omit [DecidableEq ι] in
theorem roomOf_congr (h : ∀ j ∈ places, room (items j) = room (items' j)) : roomOf room places items = roomOf room places items' := by
  unfold roomOf
  rw [List.map_congr_left h]

theorem roomOf_update (h : j ∉ places) (c : C) : roomOf room places (Function.update items j c) = roomOf room places items := by
  refine roomOf_congr fun j' hj' => ?_
  rw [Function.update_of_ne (ne_of_mem_of_not_mem hj' h)]

omit [DecidableEq ι] in
theorem roomOf_cons : roomOf room (j :: places) items = room (items j) + roomOf room places items := List.sum_cons

omit [DecidableEq ι] in
theorem roomOf_append (places' : List ι) : roomOf room (places ++ places') items =
    roomOf room places items + roomOf room places' items := by
  simp [roomOf]

omit [DecidableEq ι] in
theorem roomOf_perm {places' : List ι} (h : places.Perm places') : roomOf room places items = roomOf room places' items :=
  (h.map _).sum_eq

omit [DecidableEq ι] in
theorem roomOf_zero (h : ∀ j ∈ places, room (items j) = 0) : roomOf room places items = 0 :=
  List.sum_eq_zero fun x hx => by
    obtain ⟨j, hj, rfl⟩ := List.mem_map.mp hx
    exact h j hj

theorem pour_cons : pour room fill (j :: places) items amount =
    pour room fill places (Function.update items j (fill (items j) (min amount (room (items j)))))
      (amount - min amount (room (items j))) := rfl

theorem pour_append (places' : List ι) : pour room fill (places ++ places') items amount =
    pour room fill places' (pour room fill places items amount).1 (pour room fill places items amount).2 :=
  List.foldl_append ..

theorem pour_other (h : j ∉ places) : (pour room fill places items amount).1 j = items j := by
  induction places generalizing items amount with
  | nil => rfl
  | cons j' places ih =>
    rw [List.mem_cons, not_or] at h
    rw [pour_cons, ih h.2, Function.update_of_ne h.1]

theorem pour_rest (hnodup : places.Nodup) : (pour room fill places items amount).2 = amount - roomOf room places items := by
  induction places generalizing items amount with
  | nil => rfl
  | cons j places ih =>
    obtain ⟨hnot, hrest⟩ := List.nodup_cons.mp hnodup
    rw [pour_cons, ih hrest, roomOf_update hnot, roomOf_cons]
    omega

theorem pour_at {before after : List ι} (hnodup : (before ++ j :: after).Nodup) :
    (pour room fill (before ++ j :: after) items amount).1 j =
      fill (items j) (min (amount - roomOf room before items) (room (items j))) := by
  obtain ⟨hbefore, hafter, hdisjoint⟩ := List.nodup_append.mp hnodup
  have hj : j ∉ before := fun h => hdisjoint j h j List.mem_cons_self rfl
  rw [pour_append, pour_cons, pour_other (List.nodup_cons.mp hafter).1, Function.update_self, pour_other hj, pour_rest hbefore]

theorem pour_full (hnodup : places.Nodup) (hj : j ∈ places) (hleft : roomOf room places items ≤ amount) :
    (pour room fill places items amount).1 j = fill (items j) (room (items j)) := by
  obtain ⟨before, after, rfl⟩ := List.append_of_mem hj
  have hsplit : roomOf room (before ++ j :: after) items =
      roomOf room before items + (room (items j) + roomOf room after items) := by
    rw [roomOf_append, roomOf_cons]
  rw [pour_at hnodup, Nat.min_eq_right (by omega)]

theorem pour_zero (hfill : ∀ c, fill c 0 = c) : pour room fill places items 0 = (items, 0) := by
  induction places with
  | nil => rfl
  | cons j places ih =>
    rw [pour_cons, Nat.zero_min, hfill, Function.update_eq_self, Nat.sub_zero]
    exact ih

theorem pour_keeps {β : Type*} {f : C → β} (hfill : ∀ c a, a ≤ room c → f (fill c a) = f c) (j : ι) :
    f ((pour room fill places items amount).1 j) = f (items j) := by
  induction places generalizing items amount with
  | nil => rfl
  | cons j' places ih =>
    rw [pour_cons, ih]
    by_cases heq : j = j'
    · subst heq
      rw [Function.update_self, hfill _ _ (Nat.min_le_right ..)]
    · rw [Function.update_of_ne heq]

theorem sum_update [Fintype ι] (measure : C → Int) (items : ι → C) (j : ι) (c : C) :
    ∑ j', measure (Function.update items j c j') = (∑ j', measure (items j')) - measure (items j) + measure c := by
  have hothers : ∑ j' ∈ Finset.univ.erase j, measure (Function.update items j c j') = ∑ j' ∈ Finset.univ.erase j, measure (items j') :=
    Finset.sum_congr rfl fun j' hj' => by rw [Function.update_of_ne (Finset.ne_of_mem_erase hj')]
  rw [← Finset.add_sum_erase _ _ (Finset.mem_univ j), ← Finset.add_sum_erase _ (fun j' => measure (items j')) (Finset.mem_univ j),
    Function.update_self, hothers]
  ring

theorem pour_sum [Fintype ι] {measure : C → Int} {weight : Int}
    (hfill : ∀ c a, a ≤ room c → measure (fill c a) = measure c + weight * a) :
    (∑ j, measure ((pour room fill places items amount).1 j)) + weight * (pour room fill places items amount).2 =
      (∑ j, measure (items j)) + weight * amount := by
  induction places generalizing items amount with
  | nil => rfl
  | cons j places ih =>
    have hle := Nat.min_le_left amount (room (items j))
    rw [pour_cons, ih, sum_update, hfill _ _ (Nat.min_le_right ..), Nat.cast_sub hle]
    ring

theorem pour_partial {size : Nat} {left : C → Nat} (hnodup : places.Nodup) (hsize : 0 < size)
    (hroom : ∀ j ∈ places, room (items j) = size ∨ room (items j) = 0)
    (hempty : ∀ j ∈ places, left (items j) = 0) (hfill : ∀ c, fill c 0 = c)
    (hleft : ∀ j ∈ places, ∀ a, 0 < a → a ≤ room (items j) → left (fill (items j) a) ≤ size - a) :
    roomOf left places (pour room fill places items amount).1 < size := by
  induction places generalizing items amount with
  | nil => exact hsize
  | cons j places ih =>
    obtain ⟨hnot, hrest⟩ := List.nodup_cons.mp hnodup
    rw [List.forall_mem_cons] at hroom hempty hleft
    have hne : ∀ j' ∈ places, ∀ c, Function.update items j c j' = items j' := fun j' hj' c =>
      Function.update_of_ne (ne_of_mem_of_not_mem hj' hnot) ..
    have hhead : (pour room fill (j :: places) items amount).1 j = fill (items j) (min amount (room (items j))) := by
      rw [pour_cons, pour_other hnot, Function.update_self]
    rw [roomOf_cons, hhead]
    rcases Nat.lt_or_ge amount (room (items j)) with hlt | hge
    · -- The amount ends here, and nothing is poured behind.
      have hstep : pour room fill (j :: places) items amount = (Function.update items j (fill (items j) amount), 0) := by
        rw [pour_cons, Nat.min_eq_left hlt.le, Nat.sub_self, pour_zero hfill]
      have hbehind : roomOf left places (Function.update items j (fill (items j) amount)) = 0 := by
        rw [roomOf_update hnot, roomOf_zero hempty.2]
      rw [hstep, hbehind, Nat.min_eq_left hlt.le]
      rcases Nat.eq_zero_or_pos amount with rfl | hpos
      · rw [hfill, hempty.1]
        exact hsize
      · have := hleft.1 amount hpos hlt.le
        omega
    · have hzero : left (fill (items j) (min amount (room (items j)))) = 0 := by
        rw [Nat.min_eq_right hge]
        rcases hroom.1 with h | h
        · have := hleft.1 (room (items j)) (by omega) (Nat.le_refl _)
          omega
        · rw [h, hfill, hempty.1]
      rw [hzero, Nat.zero_add, pour_cons]
      refine ih hrest (fun j' hj' => ?_) (fun j' hj' => ?_) fun j' hj' => ?_
      · rw [hne j' hj']
        exact hroom.2 j' hj'
      · rw [hne j' hj']
        exact hempty.2 j' hj'
      · rw [hne j' hj']
        exact hleft.2 j' hj'

end Pour

end Foton

import Mathlib.Data.List.Sort
import Mathlib.Order.Basic

/-!
# Ordered sets

A finite set as the ascending list of its elements, with the operations of a
search tree: they say whether they have changed the set.
-/

namespace Foton

structure OrderedSet (α : Type*) [LinearOrder α] where
  toList : List α
  sorted : toList.Pairwise (· < ·)

namespace OrderedSet

variable {α : Type*} [LinearOrder α]

instance : Membership α (OrderedSet α) := ⟨fun s a => a ∈ s.toList⟩

theorem mem_def {s : OrderedSet α} {a : α} : a ∈ s ↔ a ∈ s.toList := Iff.rfl

instance (s : OrderedSet α) (a : α) : Decidable (a ∈ s) := inferInstanceAs (Decidable (a ∈ s.toList))

def empty : OrderedSet α := ⟨[], List.Pairwise.nil⟩

theorem not_mem_empty {a : α} : ¬ a ∈ (empty : OrderedSet α) := List.not_mem_nil

theorem insert_sorted {l : List α} (h : l.Pairwise (· < ·)) {a : α} (ha : a ∉ l) :
    (l.orderedInsert (· ≤ ·) a).Pairwise (· < ·) := by
  induction h with
  | nil => exact List.pairwise_singleton _ _
  | @cons b l hb hl ih =>
    rw [List.mem_cons, not_or] at ha
    unfold List.orderedInsert
    split
    · rename_i hle
      have hlt : a < b := lt_of_le_of_ne hle ha.1
      refine .cons (fun c hc => ?_) (.cons hb hl)
      rcases List.mem_cons.mp hc with rfl | hc
      · exact hlt
      · exact lt_trans hlt (hb c hc)
    · rename_i hgt
      refine .cons (fun c hc => ?_) (ih ha.2)
      rcases (List.mem_orderedInsert (· ≤ ·)).mp hc with rfl | hc
      · exact lt_of_not_ge hgt
      · exact hb c hc

/-- The set with `a`, and whether `a` is new. -/
def insert (s : OrderedSet α) (a : α) : OrderedSet α × Bool :=
  if h : a ∈ s.toList then (s, false) else (⟨s.toList.orderedInsert (· ≤ ·) a, insert_sorted s.sorted h⟩, true)

/-- The set without `a`, and whether `a` was there. -/
def remove (s : OrderedSet α) (a : α) : OrderedSet α × Bool :=
  (⟨s.toList.erase a, s.sorted.sublist List.erase_sublist⟩, decide (a ∈ s))

def first (s : OrderedSet α) : Option α := s.toList.head?

def popFirst (s : OrderedSet α) : Option (α × OrderedSet α) :=
  match s with
  | ⟨[], _⟩ => none
  | ⟨a :: l, h⟩ => some (a, ⟨l, h.of_cons⟩)

theorem nodup (s : OrderedSet α) : s.toList.Nodup := s.sorted.imp ne_of_lt

theorem insert_new {s : OrderedSet α} {a : α} (h : ¬ a ∈ s) : (s.insert a).2 = true := by
  unfold insert
  rw [dif_neg (mem_def.not.mp h)]

theorem mem_insert {s : OrderedSet α} {a b : α} : b ∈ (s.insert a).1 ↔ b = a ∨ b ∈ s := by
  unfold insert
  by_cases h : a ∈ s.toList
  · rw [dif_pos h]
    refine ⟨Or.inr, fun hb => hb.elim (fun hb => ?_) id⟩
    rw [hb]
    exact h
  · rw [dif_neg h]
    exact List.mem_orderedInsert (· ≤ ·)

theorem remove_present {s : OrderedSet α} {a : α} (h : a ∈ s) : (s.remove a).2 = true := decide_eq_true h

theorem mem_remove {s : OrderedSet α} {a b : α} : b ∈ (s.remove a).1 ↔ b ≠ a ∧ b ∈ s := s.nodup.mem_erase_iff

theorem first_mem {s : OrderedSet α} {a : α} (h : s.first = some a) : a ∈ s := List.mem_of_mem_head? h

theorem first_le {s : OrderedSet α} {a b : α} (h : s.first = some a) (hb : b ∈ s) : a ≤ b := by
  obtain ⟨l, hl⟩ := s
  cases l with
  | nil => cases h
  | cons c l =>
    cases h
    rcases List.mem_cons.mp hb with rfl | hb
    · exact le_refl _
    · exact le_of_lt ((List.pairwise_cons.mp hl).1 b hb)

theorem first_eq_none {s : OrderedSet α} {a : α} (h : s.first = none) : ¬ a ∈ s := by
  intro ha
  rw [mem_def, List.head?_eq_none_iff.mp h] at ha
  cases ha

/-- `pop_first` is the removal of `first`. -/
theorem popFirst_eq {s : OrderedSet α} {a : α} (h : s.first = some a) : s.popFirst = some (a, (s.remove a).1) := by
  obtain ⟨l, hl⟩ := s
  cases l with
  | nil => cases h
  | cons c l =>
    cases h
    simp [popFirst, remove]

theorem popFirst_length {s s' : OrderedSet α} {a : α} (h : s.popFirst = some (a, s')) :
    s'.toList.length < s.toList.length := by
  obtain ⟨l, hl⟩ := s
  cases l with
  | nil => cases h
  | cons c l =>
    cases h
    exact Nat.lt_succ_self _

theorem popFirst_eq_none {s : OrderedSet α} (h : s.first = none) : s.popFirst = none := by
  obtain ⟨l, hl⟩ := s
  cases l with
  | nil => rfl
  | cons c l => cases h

end OrderedSet

end Foton

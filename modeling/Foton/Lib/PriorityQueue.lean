import Mathlib.Data.List.Sort

/-!
# Priority queues

A priority queue is the list of its elements in the order in which they leave
it: the least key first, and of two equal keys the older element first.
-/

namespace Foton

variable {α κ : Type*} [LinearOrder κ]

/-- Elements in ascending order of their keys. -/
structure PriorityQueue (key : α → κ) where
  toList : List α
  sorted : toList.Pairwise fun a b => key a ≤ key b

namespace PriorityQueue

variable {key : α → κ}

def empty : PriorityQueue key := ⟨[], List.Pairwise.nil⟩

/-- Behind every element whose key is not greater. -/
def insertSorted (key : α → κ) (a : α) : List α → List α
  | [] => [a]
  | b :: l => if key a < key b then a :: b :: l else b :: insertSorted key a l

theorem insertSorted_perm (a : α) (l : List α) : (insertSorted key a l).Perm (a :: l) := by
  induction l with
  | nil => exact .rfl
  | cons b l ih =>
    unfold insertSorted
    split
    · exact .rfl
    · exact (ih.cons b).trans (.swap a b l)

theorem insertSorted_sorted (a : α) {l : List α} (h : l.Pairwise fun a b => key a ≤ key b) :
    (insertSorted key a l).Pairwise fun a b => key a ≤ key b := by
  induction h with
  | nil => exact List.pairwise_singleton _ _
  | @cons b l hb hl ih =>
    unfold insertSorted
    split
    · rename_i hlt
      refine .cons (fun c hc => ?_) (.cons hb hl)
      rcases List.mem_cons.mp hc with rfl | hc
      · exact le_of_lt hlt
      · exact le_trans (le_of_lt hlt) (hb c hc)
    · rename_i hge
      refine .cons (fun c hc => ?_) ih
      rcases List.mem_cons.mp ((insertSorted_perm a l).mem_iff.mp hc) with rfl | hc
      · exact le_of_not_gt hge
      · exact hb c hc

def push (q : PriorityQueue key) (a : α) : PriorityQueue key := ⟨insertSorted key a q.toList, insertSorted_sorted a q.sorted⟩

def peek (q : PriorityQueue key) : Option α := q.toList.head?

def pop (q : PriorityQueue key) : Option (α × PriorityQueue key) :=
  match q with
  | ⟨[], _⟩ => none
  | ⟨a :: l, h⟩ => some (a, ⟨l, h.of_cons⟩)

/-- The elements that meet `p`. -/
def retain (q : PriorityQueue key) (p : α → Bool) : PriorityQueue key := ⟨q.toList.filter p, q.sorted.filter p⟩

theorem push_perm (q : PriorityQueue key) (a : α) : (q.push a).toList.Perm (a :: q.toList) := insertSorted_perm a q.toList

theorem mem_push {q : PriorityQueue key} {a b : α} : b ∈ (q.push a).toList ↔ b = a ∨ b ∈ q.toList := by
  rw [(q.push_perm a).mem_iff, List.mem_cons]

theorem mem_retain {q : PriorityQueue key} {p : α → Bool} {a : α} : a ∈ (q.retain p).toList ↔ a ∈ q.toList ∧ p a = true :=
  List.mem_filter

theorem nodup_push {q : PriorityQueue key} {a : α} (h : q.toList.Nodup) (ha : a ∉ q.toList) : (q.push a).toList.Nodup :=
  (q.push_perm a).nodup_iff.mpr (List.nodup_cons.mpr ⟨ha, h⟩)

theorem nodup_retain {q : PriorityQueue key} (h : q.toList.Nodup) (p : α → Bool) : (q.retain p).toList.Nodup := h.filter p

theorem pop_eq_some {q q' : PriorityQueue key} {a : α} : q.pop = some (a, q') ↔ q.toList = a :: q'.toList := by
  obtain ⟨l, h⟩ := q
  obtain ⟨l', h'⟩ := q'
  cases l with
  | nil => simp [pop]
  | cons b l => simp [pop]

theorem pop_eq_none {q : PriorityQueue key} : q.pop = none ↔ q.toList = [] := by
  obtain ⟨l, h⟩ := q
  cases l with
  | nil => simp [pop]
  | cons b l => simp [pop]

theorem peek_of_pop {q q' : PriorityQueue key} {a : α} (h : q.pop = some (a, q')) : q.peek = some a := by
  rw [peek, pop_eq_some.mp h]
  rfl

theorem pop_of_peek {q : PriorityQueue key} {a : α} (h : q.peek = some a) :
    ∃ q', q.pop = some (a, q') ∧ q.toList = a :: q'.toList := by
  obtain ⟨l, hl⟩ := q
  cases l with
  | nil => cases h
  | cons b l =>
    cases h
    exact ⟨⟨l, hl.of_cons⟩, rfl, rfl⟩

theorem exists_peek {q : PriorityQueue key} {a : α} (h : a ∈ q.toList) : ∃ b, q.peek = some b := by
  obtain ⟨l, hl⟩ := q
  cases l with
  | nil => cases h
  | cons b l => exact ⟨b, rfl⟩

theorem pop_length {q q' : PriorityQueue key} {a : α} (h : q.pop = some (a, q')) : q'.toList.length < q.toList.length := by
  rw [pop_eq_some.mp h, List.length_cons]
  exact Nat.lt_succ_self _

theorem le_of_peek {q : PriorityQueue key} {a b : α} (h : q.peek = some a) (hb : b ∈ q.toList) : key a ≤ key b := by
  obtain ⟨l, hl⟩ := q
  cases l with
  | nil => cases hb
  | cons c l =>
    cases h
    rcases List.mem_cons.mp hb with rfl | hb
    · exact le_refl _
    · exact (List.pairwise_cons.mp hl).1 b hb

end PriorityQueue

end Foton

import Mathlib.Data.List.Basic

/-!
# Walking a range of indices

A loop over the indices of a range in either direction that can break off; the
index never goes below zero.
-/

namespace Foton

variable {σ : Type*}

def walk (backwards : Bool) (start stop : Nat) (visit : Nat → σ → σ × Bool) : Nat → Nat → σ → σ
  | 0, _, s => s
  | fuel + 1, dest, s =>
    if backwards && decide (dest < start) || !backwards && decide (stop ≤ dest) then s
    else
      let (s, goOn) := visit dest s
      if !goOn then s
      else if backwards then
        if dest = 0 then s else walk backwards start stop visit fuel (dest - 1) s
      else walk backwards start stop visit fuel (dest + 1) s

/-- Visits the indices of a list until one of them breaks off. -/
def visitAll (visit : Nat → σ → σ × Bool) : List Nat → σ → σ
  | [], s => s
  | j :: rest, s => if (visit j s).2 then visitAll visit rest (visit j s).1 else (visit j s).1

/-- The indices of a range in the order of a walk. -/
def walkOrder (backwards : Bool) (start stop : Nat) : List Nat :=
  if backwards then (List.range' start (stop - start)).reverse else List.range' start (stop - start)

theorem mem_walkOrder {backwards : Bool} {start stop j : Nat} : j ∈ walkOrder backwards start stop ↔ start ≤ j ∧ j < stop := by
  have hmem : j ∈ List.range' start (stop - start) ↔ start ≤ j ∧ j < stop := by
    rw [List.mem_range'_1]
    omega
  unfold walkOrder
  split
  · rw [List.mem_reverse, hmem]
  · exact hmem

variable {visit : Nat → σ → σ × Bool} {start stop : Nat}

theorem walk_forwards (count dest : Nat) (s : σ) (h : dest + count = stop) :
    walk false start stop visit count dest s = visitAll visit (List.range' dest count) s := by
  induction count generalizing dest s with
  | zero => rfl
  | succ count ih =>
    have hinside : ¬ stop ≤ dest := by omega
    simp only [walk, Bool.false_and, Bool.not_false, Bool.true_and, Bool.false_or, hinside, decide_false, Bool.false_eq_true, if_false,
      List.range'_succ, visitAll]
    by_cases hgo : (visit dest s).2 = true
    · simp only [hgo, Bool.not_true, Bool.false_eq_true, if_false, if_true]
      exact ih (dest + 1) _ (by omega)
    · simp [hgo]

theorem walk_backwards (count : Nat) (s : σ) :
    walk true start stop visit (count + 1) (start + count) s = visitAll visit (List.range' start (count + 1)).reverse s := by
  induction count generalizing s with
  | zero =>
    have hone : (List.range' start (0 + 1)).reverse = [start] := rfl
    rw [hone]
    simp [walk, visitAll]
  | succ count ih =>
    have hinside : ¬ start + (count + 1) < start := by omega
    have hnonzero : start + (count + 1) ≠ 0 := by omega
    have hprev : start + (count + 1) - 1 = start + count := by omega
    rw [List.range'_concat, List.reverse_append, List.reverse_singleton, List.singleton_append]
    rw [walk]
    simp only [hinside, decide_false, Bool.and_false, Bool.not_true, Bool.false_and, Bool.or_false, Bool.false_eq_true, if_false,
      if_true, hnonzero, hprev, visitAll, Nat.one_mul]
    by_cases hgo : (visit (start + (count + 1)) s).2 = true
    · simp only [hgo, Bool.not_true, Bool.false_eq_true, if_false, if_true]
      exact ih _
    · simp [hgo]

/-- The walk from the first index of its direction visits the range in order. -/
theorem walk_eq (backwards : Bool) (h : start < stop) (s : σ) :
    walk backwards start stop visit (stop - start) (if backwards then stop - 1 else start) s =
      visitAll visit (walkOrder backwards start stop) s := by
  cases backwards with
  | false => exact walk_forwards (stop - start) start s (by omega)
  | true =>
    have hlast : stop - 1 = start + (stop - start - 1) := by omega
    have hcount : stop - start = stop - start - 1 + 1 := by omega
    have hwalk : walk true start stop visit (stop - start - 1 + 1) (start + (stop - start - 1)) s =
        visitAll visit (List.range' start (stop - start - 1 + 1)).reverse s := walk_backwards (stop - start - 1) s
    rw [← hcount, ← hlast] at hwalk
    exact hwalk

theorem visitAll_induct {R : σ → Prop} {order : List Nat} (hvisit : ∀ j ∈ order, ∀ s, R s → R (visit j s).1) {s : σ} (hs : R s) :
    R (visitAll visit order s) := by
  induction order generalizing s with
  | nil => exact hs
  | cons j rest ih =>
    rw [List.forall_mem_cons] at hvisit
    unfold visitAll
    split
    · exact ih hvisit.2 (hvisit.1 s hs)
    · exact hvisit.1 s hs

/-! ## Closed ranges of integers -/

/-- `first..=last` -/
def rangeClosed (first last : Int) : List Int := (List.range (last - first + 1).toNat).map fun (i : Nat) => first + i

theorem mem_rangeClosed {first last a : Int} : a ∈ rangeClosed first last ↔ first ≤ a ∧ a ≤ last := by
  unfold rangeClosed
  rw [List.mem_map]
  constructor
  · intro h
    obtain ⟨i, hi, rfl⟩ := h
    rw [List.mem_range] at hi
    omega
  · intro h
    exact ⟨(a - first).toNat, List.mem_range.mpr (by omega), by omega⟩

theorem pairwise_rangeClosed (first last : Int) : (rangeClosed first last).Pairwise (· < ·) := by
  unfold rangeClosed
  rw [List.pairwise_map]
  apply List.pairwise_lt_range.imp
  intro i j hlt
  omega

end Foton

import Mathlib.Logic.Equiv.Basic
import Mathlib.Order.Lattice

/-!
# Sifting in a binary heap

The costs of a binary heap are a function of the index, the entries past its end
having the greatest cost. An entry whose cost changed is out of order either with
its parent or with its children; a swap moves it one place, and the order is back
when it need not move.
-/

namespace Foton.SiftHeap

variable {C : Type*} [LinearOrder C] {a : Nat → C} {i c : Nat}

def parent (j : Nat) : Nat := (j - 1) / 2

theorem parent_lt {j : Nat} (h : 0 < j) : parent j < j := by
  unfold parent
  omega

theorem parent_eq_iff {j : Nat} (h : 0 < j) : parent j = i ↔ j = 2 * i + 1 ∨ j = 2 * i + 2 := by
  unfold parent
  omega

/-- No entry costs less than its parent. -/
def Heaped (a : Nat → C) : Prop := ∀ j, 0 < j → a (parent j) ≤ a j

/-- Only entry `i` may cost less than its parent; its children cost no less than that parent. -/
structure UpTo (a : Nat → C) (i : Nat) : Prop where
  others : ∀ j, 0 < j → j ≠ i → a (parent j) ≤ a j
  across : ∀ j, 0 < i → 0 < j → parent j = i → a (parent i) ≤ a j

/-- Only the children of entry `i` may cost less than their parent; they cost no less than the parent of `i`. -/
structure DownFrom (a : Nat → C) (i : Nat) : Prop where
  others : ∀ j, 0 < j → parent j ≠ i → a (parent j) ≤ a j
  across : ∀ j, 0 < i → 0 < j → parent j = i → a (parent i) ≤ a j

/-- The costs after entries `i` and `c` change places. -/
def exchange (a : Nat → C) (i c : Nat) : Nat → C := fun j => if j = i then a c else if j = c then a i else a j

theorem root_le (h : Heaped a) (j : Nat) : a 0 ≤ a j := by
  induction j using Nat.strongRecOn with
  | ind j ih =>
    by_cases hj : j = 0
    · rw [hj]
    · have hpos := Nat.pos_of_ne_zero hj
      exact le_trans (ih (parent j) (parent_lt hpos)) (h j hpos)

theorem Heaped.upTo (h : Heaped a) {b : Nat → C} (hb : ∀ j, j ≠ i → b j = a j) (hle : b i ≤ a i) : UpTo b i where
  others j hj hji := by
    by_cases hp : parent j = i
    · rw [hp, hb j hji]
      exact le_trans hle (hp ▸ h j hj)
    · rw [hb j hji, hb _ hp]
      exact h j hj
  across j hi hj hp := by
    have hpi := parent_lt hi
    have hij := parent_lt hj
    rw [hb j (by omega), hb _ (by omega)]
    exact le_trans (h i hi) (hp ▸ h j hj)

theorem Heaped.downFrom (h : Heaped a) {b : Nat → C} (hb : ∀ j, j ≠ i → b j = a j) (hle : a i ≤ b i) : DownFrom b i where
  others j hj hp := by
    by_cases hji : j = i
    · subst hji
      rw [hb _ hp]
      exact le_trans (h j hj) hle
    · rw [hb j hji, hb _ hp]
      exact h j hj
  across j hi hj hp := by
    have hpi := parent_lt hi
    have hij := parent_lt hj
    rw [hb j (by omega), hb _ (by omega)]
    exact le_trans (h i hi) (hp ▸ h j hj)

/-- Another root, and no entries from `n` on. -/
theorem Heaped.replaceRoot (h : Heaped a) {b : Nat → C} {n : Nat} (hb : ∀ j, 0 < j → j < n → b j = a j)
    (hend : ∀ j k, n ≤ j → b k ≤ b j) : DownFrom b 0 where
  others j hj hp := by
    by_cases hn : j < n
    · have hpj := parent_lt hj
      rw [hb j hj hn, hb (parent j) (Nat.pos_of_ne_zero hp) (by omega)]
      exact h j hj
    · exact hend j _ (Nat.le_of_not_lt hn)
  across j hi := absurd hi (Nat.lt_irrefl 0)

theorem UpTo.heaped (h : UpTo a i) (hi : 0 < i → a (parent i) ≤ a i) : Heaped a := by
  intro j hj
  by_cases hji : j = i
  · rw [hji]
    exact hi (hji ▸ hj)
  · exact h.others j hj hji

theorem DownFrom.heaped (h : DownFrom a i) (hi : ∀ j, 0 < j → parent j = i → a i ≤ a j) : Heaped a := by
  intro j hj
  by_cases hp : parent j = i
  · rw [hp]
    exact hi j hj hp
  · exact h.others j hj hp

/-- The entry moves to the place of its parent. -/
theorem UpTo.step (h : UpTo a i) (hi : 0 < i) (hlt : a i ≤ a (parent i)) : UpTo (exchange a i (parent i)) (parent i) := by
  have hpi := parent_lt hi
  unfold exchange
  refine ⟨fun j hj hne => ?_, fun j hpos hj hp => ?_⟩
  · by_cases hji : j = i
    · subst hji
      rw [if_pos rfl, if_neg (by omega), if_pos rfl]
      exact hlt
    · rw [if_neg hji, if_neg hne]
      by_cases hp : parent j = i
      · rw [if_pos hp]
        exact h.across j hi hj hp
      · rw [if_neg hp]
        by_cases hpp : parent j = parent i
        · rw [if_pos hpp]
          exact le_trans hlt (hpp ▸ h.others j hj hji)
        · rw [if_neg hpp]
          exact h.others j hj hji
  · have hpp := parent_lt hpos
    rw [if_neg (show parent (parent i) ≠ i by omega), if_neg (show parent (parent i) ≠ parent i by omega)]
    have hgrand := h.others (parent i) hpos (by omega)
    by_cases hji : j = i
    · rw [if_pos hji]
      exact hgrand
    · have hjp := parent_lt hj
      rw [if_neg hji, if_neg (by omega)]
      exact le_trans hgrand (hp ▸ h.others j hj hji)

/-- The entry moves to the place of its cheapest child. -/
theorem DownFrom.step (h : DownFrom a i) (hc : 0 < c) (hpc : parent c = i) (hlt : a c ≤ a i)
    (hleast : ∀ j, 0 < j → parent j = i → a c ≤ a j) : DownFrom (exchange a i c) c := by
  have hic : i < c := hpc ▸ parent_lt hc
  unfold exchange
  refine ⟨fun j hj hne => ?_, fun j _ hj hp => ?_⟩
  · rw [if_neg hne]
    by_cases hji : j = i
    · subst hji
      have hpj := parent_lt hj
      rw [if_neg (by omega), if_pos rfl]
      exact h.across c hj hc hpc
    · rw [if_neg hji]
      by_cases hp : parent j = i
      · rw [if_pos hp]
        by_cases hjc : j = c
        · rw [if_pos hjc]
          exact hlt
        · rw [if_neg hjc]
          exact hleast j hj hp
      · rw [if_neg hp]
        by_cases hjc : j = c
        · exact absurd (hjc ▸ hpc) hp
        · rw [if_neg hjc]
          exact h.others j hj hp
  · have hjp := parent_lt hj
    rw [hpc, if_pos rfl, if_neg (by omega), if_neg (by omega)]
    exact (hp ▸ h.others j hj (by omega) : a c ≤ a j)

end Foton.SiftHeap

import Mathlib.Data.Nat.Find

/-!
# One above the highest place

`top p n` is one above the highest place below `n` where `p` holds, and zero
where there is none.
-/

namespace Foton

def top (p : Nat → Bool) (n : Nat) : Nat := Nat.findGreatest (fun m => p (m - 1) = true) n

variable {p p' : Nat → Bool} {n k m : Nat}

theorem top_le (p : Nat → Bool) (n : Nat) : top p n ≤ n := Nat.findGreatest_le n

theorem lt_top (hk : k < n) (h : p k = true) : k < top p n := Nat.le_findGreatest hk h

theorem top_pred (h : 0 < top p n) : p (top p n - 1) = true :=
  Nat.findGreatest_of_ne_zero (P := fun m => p (m - 1) = true) rfl (Nat.pos_iff_ne_zero.mp h)

/-- The value of `top`, by what holds above and at it. -/
theorem top_eq (hle : m ≤ n) (hat : 0 < m → p (m - 1) = true) (habove : ∀ k, m ≤ k → k < n → p k = false) : top p n = m := by
  refine Nat.findGreatest_eq_iff.mpr ⟨hle, fun h => hat (Nat.pos_iff_ne_zero.mpr h), fun j hj hjn => ?_⟩
  rw [habove (j - 1) (by omega) (by omega)]
  exact Bool.false_ne_true

theorem top_congr (h : ∀ k < n, p k = p' k) : top p n = top p' n := by
  have hle := top_le p' n
  refine top_eq hle (fun hpos => ?_) fun k hk hkn => ?_
  · rw [h _ (by omega)]
    exact top_pred hpos
  · rw [h k hkn]
    by_contra hp
    have := lt_top hkn (by simpa using hp)
    omega

theorem top_succ (p : Nat → Bool) (n : Nat) : top p (n + 1) = if p n then n + 1 else top p n := by
  have hle := top_le p n
  split
  · rename_i hp
    exact top_eq (Nat.le_refl _) (fun _ => hp) fun k hk hkn => absurd hkn (Nat.not_lt.mpr hk)
  · rename_i hp
    refine top_eq (by omega) top_pred fun k hk hkn => ?_
    rcases Nat.lt_succ_iff_lt_or_eq.mp hkn with hkn | rfl
    · by_contra hk'
      have := lt_top hkn (by simpa using hk')
      omega
    · simpa using hp

theorem top_of_above (hk : k ≤ n) (h : ∀ j, k ≤ j → j < n → p j = false) : top p n = top p k := by
  have hle := top_le p k
  refine top_eq (by omega) (fun hpos => top_pred hpos) fun j hj hjn => ?_
  rcases Nat.lt_or_ge j k with hjk | hjk
  · by_contra hp
    have := lt_top hjk (by simpa using hp)
    omega
  · exact h j hjk hjn

section Update

variable {b : Bool} (hother : ∀ j, j ≠ k → p' j = p j)

include hother

theorem top_update_below (h : k + 1 < top p n) : top p' n = top p n := by
  refine top_eq (top_le p n) (fun hpos => ?_) fun j hj hjn => ?_
  · rw [hother _ (by omega)]
    exact top_pred hpos
  · rw [hother j (by omega)]
    by_contra hp
    have := lt_top hjn (by simpa using hp)
    omega

theorem top_update_true (hk : k < n) (hb : p' k = true) : top p' n = max (top p n) (k + 1) := by
  have hle := top_le p n
  refine top_eq (by omega) (fun _ => ?_) fun j hj hjn => ?_
  · rcases Nat.lt_or_ge (k + 1) (top p n) with h | h
    · rw [Nat.max_eq_left (by omega), hother _ (by omega)]
      exact top_pred (by omega)
    · rw [Nat.max_eq_right h]
      exact hb
  · rw [hother j (by omega)]
    by_contra hp
    have := lt_top hjn (by simpa using hp)
    omega

theorem top_update_false (hb : p' k = false) (h : top p n ≠ k + 1) : top p' n = top p n := by
  refine top_eq (top_le p n) (fun hpos => ?_) fun j hj hjn => ?_
  · rw [hother _ (by omega)]
    exact top_pred hpos
  · by_cases hjk : j = k
    · rw [hjk, hb]
    · rw [hother j hjk]
      by_contra hp
      have := lt_top hjn (by simpa using hp)
      omega

theorem top_update_top (hb : p' k = false) (h : top p n = k + 1) : top p' n = top p' k := by
  have hle := top_le p n
  refine top_of_above (by omega) fun j hj hjn => ?_
  by_cases hjk : j = k
  · rw [hjk, hb]
  · rw [hother j hjk]
    by_contra hp
    have := lt_top hjn (by simpa using hp)
    omega

end Update

end Foton

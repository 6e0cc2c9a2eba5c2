import Mathlib.Data.List.Basic
import Mathlib.Data.Nat.Bitwise
import Mathlib.Tactic.Linarith
import Mathlib.Tactic.Ring

/-!
# Fixed-width entries in words

Entries of `bits` bits are packed into words of `width` bits, as many to a word
as fit, the first in the lowest bits. No entry crosses a word.
-/

namespace Foton

/-- How many entries a word holds. -/
def perWord (width bits : Nat) : Nat := width / bits

/-- The lowest bit of entry `i` in its word. -/
def slot (width bits i : Nat) : Nat := i % perWord width bits * bits

/-- Each entry is in its word, and nothing else is. -/
structure Packed (width bits : Nat) (entries words : List Nat) : Prop where
  length : words.length = (entries.length + perWord width bits - 1) / perWord width bits
  bit : ∀ j k, (words.getD j 0).testBit k = true ↔ k < width ∧ ∃ i, ∃ h : i < entries.length,
    i / perWord width bits = j ∧ slot width bits i ≤ k ∧ entries[i].testBit (k - slot width bits i) = true

/-- The entries of all words, in order. -/
def unpack (width bits : Nat) (words : List Nat) : List Nat :=
  words.flatMap fun word => (List.range (perWord width bits)).map fun j => word >>> (j * bits) % 2 ^ bits

section
variable {width bits : Nat}

theorem perWord_mul_le (width bits : Nat) : perWord width bits * bits ≤ width := Nat.div_mul_le_self width bits

theorem perWord_pos (hbits : 0 < bits) (hwidth : bits ≤ width) : 0 < perWord width bits := Nat.div_pos hwidth hbits

theorem slot_le (h : 0 < perWord width bits) (i : Nat) : slot width bits i + bits ≤ width := by
  have hlt : i % perWord width bits < perWord width bits := Nat.mod_lt i h
  calc slot width bits i + bits = (i % perWord width bits + 1) * bits := by unfold slot; ring
    _ ≤ perWord width bits * bits := Nat.mul_le_mul_right bits hlt
    _ ≤ width := perWord_mul_le width bits

theorem eq_of_slot {i i' k : Nat} (hword : i / perWord width bits = i' / perWord width bits)
    (hi : slot width bits i ≤ k ∧ k < slot width bits i + bits)
    (hi' : slot width bits i' ≤ k ∧ k < slot width bits i' + bits) : i = i' := by
  have hmod : i % perWord width bits = i' % perWord width bits := by
    unfold slot at hi hi'
    have hlt : i % perWord width bits * bits < (i' % perWord width bits + 1) * bits := by linarith [hi.1, hi'.2]
    have hlt' : i' % perWord width bits * bits < (i % perWord width bits + 1) * bits := by linarith [hi'.1, hi.2]
    have h := Nat.lt_of_mul_lt_mul_right hlt
    have h' := Nat.lt_of_mul_lt_mul_right hlt'
    omega
  rw [← Nat.div_add_mod i (perWord width bits), ← Nat.div_add_mod i' (perWord width bits), hword, hmod]

variable {entries words : List Nat}

theorem Packed.entry (h : Packed width bits entries words) (hpos : 0 < perWord width bits)
    (hfit : ∀ e ∈ entries, e < 2 ^ bits) {i : Nat} (hi : i < entries.length) :
    words.getD (i / perWord width bits) 0 >>> slot width bits i % 2 ^ bits = entries[i] := by
  refine Nat.eq_of_testBit_eq fun t => ?_
  rw [Nat.testBit_mod_two_pow, Nat.testBit_shiftRight]
  by_cases ht : t < bits
  · rw [decide_eq_true ht, Bool.true_and, Bool.eq_iff_iff, h.bit]
    constructor
    · rintro ⟨-, i', hi', hword, hle, hbit⟩
      have hlt : slot width bits i + t - slot width bits i' < bits := by
        by_contra hge
        rw [Nat.testBit_lt_two_pow (lt_of_lt_of_le (hfit _ (List.getElem_mem hi'))
          (Nat.pow_le_pow_right (by decide) (Nat.le_of_not_lt hge)))] at hbit
        cases hbit
      obtain rfl : i = i' := eq_of_slot hword.symm (k := slot width bits i + t) ⟨by omega, by omega⟩ ⟨hle, by omega⟩
      rwa [Nat.add_sub_cancel_left] at hbit
    · intro hbit
      refine ⟨?_, i, hi, rfl, by omega, by rwa [Nat.add_sub_cancel_left]⟩
      exact lt_of_lt_of_le (by omega) (slot_le hpos i)
  · rw [decide_eq_false ht, Bool.false_and]
    exact (Nat.testBit_lt_two_pow (lt_of_lt_of_le (hfit _ (List.getElem_mem hi))
      (Nat.pow_le_pow_right (by decide) (Nat.le_of_not_lt ht)))).symm

theorem Packed.word_lt (h : Packed width bits entries words) {word : Nat} (hword : word ∈ words) :
    word < 2 ^ width := by
  obtain ⟨j, hj, rfl⟩ := List.mem_iff_getElem.mp hword
  refine Nat.lt_pow_two_of_testBit _ fun k hk => ?_
  have hbit := h.bit j k
  rw [List.getD_eq_getElem _ _ hj] at hbit
  by_contra hne
  rw [Bool.not_eq_false] at hne
  exact absurd (hbit.mp hne).1 (Nat.not_lt.mpr hk)

/-! ## Unpacking -/

theorem getElem?_flatMap_range {α β : Type*} {n : Nat} (f : α → Nat → β) (l : List α) (hn : 0 < n) (i : Nat) :
    (l.flatMap fun a => (List.range n).map (f a))[i]? = l[i / n]?.map fun a => f a (i % n) := by
  induction l generalizing i with
  | nil => simp
  | cons a l ih =>
    rw [List.flatMap_cons]
    by_cases hi : i < n
    · rw [List.getElem?_append_left (by simpa using hi), Nat.div_eq_of_lt hi, Nat.mod_eq_of_lt hi]
      simp [hi]
    · obtain ⟨m, rfl⟩ := Nat.exists_eq_add_of_le (Nat.le_of_not_lt hi)
      rw [List.getElem?_append_right (by simp), List.length_map, List.length_range, Nat.add_sub_cancel_left, ih,
        Nat.add_div_left m hn, List.getElem?_cons_succ, Nat.add_mod_left]

theorem unpack_lt {e : Nat} (h : e ∈ unpack width bits words) : e < 2 ^ bits := by
  unfold unpack at h
  simp only [List.mem_flatMap, List.mem_map] at h
  obtain ⟨_, _, _, _, rfl⟩ := h
  exact Nat.mod_lt _ (Nat.two_pow_pos bits)

theorem Packed.unpack (h : Packed width bits entries words) (hpos : 0 < perWord width bits)
    (hfit : ∀ e ∈ entries, e < 2 ^ bits) : (Foton.unpack width bits words).take entries.length = entries := by
  have hwords : entries.length ≤ words.length * perWord width bits := by
    rw [h.length, Nat.mul_comm]
    have hdiv := Nat.div_add_mod (entries.length + perWord width bits - 1) (perWord width bits)
    have hmod := Nat.mod_lt (entries.length + perWord width bits - 1) hpos
    omega
  refine List.ext_getElem? fun i => ?_
  by_cases hi : i < entries.length
  · have hj : i / perWord width bits < words.length := Nat.div_lt_of_lt_mul (by rw [Nat.mul_comm]; omega)
    rw [List.getElem?_take_of_lt hi, Foton.unpack, getElem?_flatMap_range _ _ hpos, List.getElem?_eq_getElem hj,
      List.getElem?_eq_getElem hi, Option.map_some, ← h.entry hpos hfit hi, List.getD_eq_getElem _ _ hj]
    rfl
  · rw [List.getElem?_eq_none (by rw [List.length_take]; omega), List.getElem?_eq_none (by omega)]

end

end Foton
